import TypeGuard.Proofs.Check.Correspondence
import TypeGuard.Proofs.Grammar.Lines
import TypeGuard.Proofs.Grammar.Recognition
import TypeGuard.Proofs.TypeExpr.Display
import TypeGuard.Proofs.TypeExpr.Grammatical
import TypeGuard.Proofs.TypeExpr.Outline

/-! # Recovery

The lines of a listing tell the tree, up to the marks of optional properties: which types stand
inside which is told by the indentation of the next line that is that of a type, whatever the keys
before it look like. The text of a listing tells its lines unless there is a line feed in a key.
-/

namespace TypeGuard

open Text Grammar

def Primitive.written : List Primitive :=
  [string, number, boolean]

namespace TypeExpr

/-! ## Grammatical trees -/

theorem Grammatical.child {t u : TypeExpr} (h : t.Grammatical) (hu : u ∈ t.children) :
    u.Grammatical := by
  cases h with
  | literal | named => exact absurd hu List.not_mem_nil
  | keyword hk => cases hk <;> exact absurd hu List.not_mem_nil
  | nullable h | array h => exact List.mem_singleton.mp hu ▸ h
  | tuple h | union _ h | intersection _ h => exact h u hu
  | object h => exact List.forall_mem_map.mpr h u hu
  | function hps ht =>
    exact List.forall_mem_append.mpr ⟨hps, List.forall_mem_singleton.mpr ht⟩ u hu

theorem Grammatical.isCanonical {v : Literal} (h : (TypeExpr.literal v).Grammatical) :
    v.IsCanonical := by
  cases h with
  | literal h => exact h
  | keyword hk => cases hk <;> trivial

theorem Grammatical.kind_mem {kind : Primitive} (h : (primitive kind).Grammatical) :
    kind ∈ Primitive.written := by
  cases h with
  | keyword hk => cases hk <;> decide

inductive SameLine : TypeExpr → TypeExpr → Prop
  | literal (v) : SameLine (literal v) (literal v)
  | primitive (kind) : SameLine (primitive kind) (primitive kind)
  | null : SameLine null null
  | void : SameLine void void
  | any : SameLine any any
  | nullable (t u) : SameLine (nullable t) (nullable u)
  | array (t u) : SameLine (array t) (array u)
  | tuple (ts us) : SameLine (tuple ts) (tuple us)
  | object (ps qs) : SameLine (object ps) (object qs)
  | union (ts us) : SameLine (union ts) (union us)
  | intersection (ts us) : SameLine (intersection ts) (intersection us)
  | named (name) : SameLine (named name) (named name)
  | function (ps qs t u) : SameLine (function ps t) (function qs u)

theorem Grammatical.sameLine {t u : TypeExpr} (ht : t.Grammatical) (hu : u.Grammatical)
    (h : t.heading = u.heading) : SameLine t u := by
  have hform := form_eq_of_heading_eq ht.isPure.root hu.isPure.root h
  cases t <;> cases u <;> try contradiction
  case literal.literal v w =>
    have hdisplay : v.display = w.display :=
      List.append_cancel_left (List.append_cancel_right h)
    rw [Literal.eq_of_display_eq ht.isCanonical hu.isCanonical hdisplay]
    exact .literal w
  case primitive.primitive kind kind' =>
    have hname : kind.name = kind'.name :=
      String.toList_inj.mp (List.append_cancel_left (List.append_cancel_right h))
    have hinj : ∀ k ∈ Primitive.written, ∀ k' ∈ Primitive.written, k.name = k'.name → k = k' := by
      decide
    rw [hinj kind ht.kind_mem kind' hu.kind_mem hname]
    exact .primitive kind'
  case named.named name name' =>
    rw [String.toList_inj.mp (List.append_cancel_left (List.append_cancel_right h))]
    exact .named name'
  all_goals constructor

/-! ## Trees from lines -/

/-- The lines of a type tell the type up to the marks of its keys. They also tell where they end, if
the lines below them do not belong to the type. -/
def Recovered (t : TypeExpr) : Prop :=
  ∀ u : TypeExpr, u.Grammatical → ∀ (n : ℕ) (ls ks : List (List Char)), margin ls ≤ 2 * n →
    margin ks ≤ 2 * n → t.listing n ++ ls = u.listing n ++ ks → t.markKeys = u.markKeys ∧ ls = ks

theorem heading_eq_of_listing_append_eq {t u : TypeExpr} {n : ℤ} {ls ks : List (List Char)}
    (h : t.listing n ++ ls = u.listing n ++ ks) : t.heading = u.heading := by
  obtain ⟨_, ht⟩ := t.exists_listing_eq n
  obtain ⟨_, hu⟩ := u.exists_listing_eq n
  rw [ht, hu] at h
  exact indented_inj.mp (List.cons.inj h).1

section Lists

variable {n : ℕ} {ls ks : List (List Char)}

theorem margin_flatMap_listing_le {ts : List TypeExpr} (hts : ∀ t ∈ ts, t.Grammatical)
    (h : Stops n ls) : margin (ts.flatMap (listing n) ++ ls) ≤ 2 * n := by
  cases ts with
  | nil => exact h.margin_le
  | cons t ts =>
    rw [List.flatMap_cons, List.append_assoc, margin_listing (hts t List.mem_cons_self).isPure.root]

theorem Stops.ne_listing (h : Stops n ls) {t : TypeExpr} (ht : t.Grammatical)
    (ks : List (List Char)) : ls ≠ t.listing n ++ ks := by
  obtain ⟨_, hlisting⟩ := t.exists_listing_eq n
  rw [hlisting]
  rintro rfl
  exact h.head_ne t ht.isPure.root rfl

theorem flatMap_listing_inj {ts us : List TypeExpr}
    (hts : ∀ t ∈ ts, t.Grammatical ∧ t.Recovered)
    (hus : ∀ u ∈ us, u.Grammatical) (hls : Stops n ls) (hks : Stops n ks)
    (h : ts.flatMap (listing n) ++ ls = us.flatMap (listing n) ++ ks) :
    ts.map markKeys = us.map markKeys ∧ ls = ks := by
  induction ts generalizing us with
  | nil =>
    cases us with
    | nil => exact ⟨rfl, h⟩
    | cons u us =>
      rw [List.flatMap_cons, List.append_assoc] at h
      exact absurd h (hls.ne_listing (hus u List.mem_cons_self) _)
  | cons t ts ih =>
    rw [List.flatMap_cons, List.append_assoc] at h
    cases us with
    | nil => exact absurd h.symm (hks.ne_listing (hts t List.mem_cons_self).1 _)
    | cons u us =>
      rw [List.flatMap_cons, List.append_assoc] at h
      obtain ⟨⟨-, ht⟩, hts⟩ := List.forall_mem_cons.mp hts
      obtain ⟨hu, hus⟩ := List.forall_mem_cons.mp hus
      obtain ⟨htu, hrest⟩ := ht u hu n _ _
        (margin_flatMap_listing_le (fun t ht => (hts t ht).1) hls)
        (margin_flatMap_listing_le hus hks) h
      obtain ⟨hmap, hend⟩ := ih hts hus hrest
      exact ⟨by rw [List.map_cons, List.map_cons, htu, hmap], hend⟩

theorem margin_flatMap_propertyListing_le {ps : List (Property TypeExpr)}
    (hps : ∀ p ∈ ps, p.value.Grammatical) (h : margin ls ≤ 2 * n) :
    margin (ps.flatMap (propertyListing n) ++ ls) ≤ 2 * (n + 2) := by
  cases ps with
  | nil =>
    rw [List.flatMap_nil, List.nil_append]
    omega
  | cons p ps =>
    rw [List.flatMap_cons, List.append_assoc,
      margin_propertyListing (hps p List.mem_cons_self).isPure.root]

theorem ne_propertyListing (h : margin ls ≤ 2 * n) {p : Property TypeExpr}
    (hp : p.value.Grammatical) (ks : List (List Char)) : ls ≠ propertyListing n p ++ ks := by
  rintro rfl
  rw [margin_propertyListing hp.isPure.root] at h
  omega

theorem flatMap_propertyListing_inj {ps qs : List (Property TypeExpr)}
    (hps : ∀ p ∈ ps, p.value.Grammatical ∧ p.value.Recovered)
    (hqs : ∀ q ∈ qs, q.value.Grammatical)
    (hls : margin ls ≤ 2 * n) (hks : margin ks ≤ 2 * n)
    (h : ps.flatMap (propertyListing n) ++ ls = qs.flatMap (propertyListing n) ++ ks) :
    ps.map markProperty = qs.map markProperty ∧ ls = ks := by
  induction ps generalizing qs with
  | nil =>
    cases qs with
    | nil => exact ⟨rfl, h⟩
    | cons q qs =>
      rw [List.flatMap_cons, List.append_assoc] at h
      exact absurd h (ne_propertyListing hls (hqs q List.mem_cons_self) _)
  | cons p ps ih =>
    rw [List.flatMap_cons, List.append_assoc] at h
    cases qs with
    | nil => exact absurd h.symm (ne_propertyListing hks (hps p List.mem_cons_self).1 _)
    | cons q qs =>
      rw [List.flatMap_cons, List.append_assoc] at h
      obtain ⟨⟨-, hp⟩, hps⟩ := List.forall_mem_cons.mp hps
      obtain ⟨hq, hqs⟩ := List.forall_mem_cons.mp hqs
      obtain ⟨hkey, hvalue⟩ := List.cons.inj h
      have hmarked : p.marked = q.marked :=
        String.toList_inj.mp (List.append_cancel_right (indented_inj.mp hkey))
      obtain ⟨htype, hrest⟩ := hp q.value hq (n + 2) _ _
        (margin_flatMap_propertyListing_le (fun p hp => (hps p hp).1) hls)
        (margin_flatMap_propertyListing_le hqs hks) hvalue
      obtain ⟨hmap, hend⟩ := ih hps hqs hrest
      refine ⟨?_, hend⟩
      rw [List.map_cons, List.map_cons, hmap, markProperty, markProperty, hmarked, htype]

end Lists

/-- The lines of the type of a text tell it up to the marks of its keys. -/
theorem recovered_of_grammatical (t : TypeExpr) : t.Grammatical → t.Recovered := by
  induction t using children_induction with
  | h t ih =>
    intro ht u hu n ls ks hls hks h
    have hparts : ∀ v ∈ t.children, v.Grammatical ∧ v.Recovered := fun v hv =>
      ⟨ht.child hv, ih v hv (ht.child hv)⟩
    have hparts' : ∀ v ∈ u.children, v.Grammatical := fun v hv => hu.child hv
    have hmembers {ts us : List TypeExpr} (hts : ∀ v ∈ ts, v.Grammatical ∧ v.Recovered)
        (hus : ∀ v ∈ us, v.Grammatical)
        (h : ts.flatMap (listing (n + 1)) ++ ls = us.flatMap (listing (n + 1)) ++ ks) :
        ts.map markKeys = us.map markKeys ∧ ls = ks :=
      flatMap_listing_inj hts hus (stops_of_margin_le hls) (stops_of_margin_le hks) h
    have hline := ht.sameLine hu (heading_eq_of_listing_append_eq h)
    cases hline with
    | literal | primitive | null | void | any | named => exact ⟨rfl, (List.cons.inj h).2⟩
    | nullable t u =>
      obtain ⟨htu, hend⟩ := (hparts t List.mem_cons_self).2 u (hparts' u List.mem_cons_self) (n + 1)
        ls ks (by omega) (by omega) (List.cons.inj h).2
      exact ⟨congrArg nullable htu, hend⟩
    | array t u =>
      obtain ⟨htu, hend⟩ := (hparts t List.mem_cons_self).2 u (hparts' u List.mem_cons_self) (n + 1)
        ls ks (by omega) (by omega) (List.cons.inj h).2
      exact ⟨congrArg array htu, hend⟩
    | tuple ts us =>
      rw [listing_tuple, listing_tuple] at h
      obtain ⟨htu, hend⟩ : ts.map markKeys = us.map markKeys ∧ ls = ks :=
        hmembers hparts hparts' (List.cons.inj h).2
      exact ⟨by rw [markKeys_tuple, markKeys_tuple, htu], hend⟩
    | object ps qs =>
      rw [listing_object, listing_object] at h
      obtain ⟨htu, hend⟩ := flatMap_propertyListing_inj (List.forall_mem_map.mp hparts)
        (List.forall_mem_map.mp hparts') hls hks (List.cons.inj h).2
      exact ⟨by rw [markKeys_object, markKeys_object, htu], hend⟩
    | union ts us =>
      rw [listing_union, listing_union] at h
      obtain ⟨htu, hend⟩ : ts.map markKeys = us.map markKeys ∧ ls = ks :=
        hmembers hparts hparts' (List.cons.inj h).2
      exact ⟨by rw [markKeys_union, markKeys_union, htu], hend⟩
    | intersection ts us =>
      rw [listing_intersection, listing_intersection] at h
      obtain ⟨htu, hend⟩ : ts.map markKeys = us.map markKeys ∧ ls = ks :=
        hmembers hparts hparts' (List.cons.inj h).2
      exact ⟨by rw [markKeys_intersection, markKeys_intersection, htu], hend⟩
    | function ps qs t u =>
      obtain ⟨hps, ht⟩ := List.forall_mem_append.mp hparts
      obtain ⟨hqs, hu⟩ := List.forall_mem_append.mp hparts'
      rw [listing_function, listing_function, List.cons_append, List.cons_append,
        List.append_assoc, List.append_assoc] at h
      obtain ⟨hpq, hrest⟩ := flatMap_listing_inj hps hqs
        (stops_arrow (n + 1) (t.listing (n + 2) ++ ls))
        (stops_arrow (n + 1) (u.listing (n + 2) ++ ks)) (List.cons.inj h).2
      obtain ⟨htu, hend⟩ := (ht t (List.mem_singleton_self t)).2 u
        (hu u (List.mem_singleton_self u)) (n + 2) ls ks (by omega) (by omega) (List.cons.inj hrest).2
      exact ⟨by rw [markKeys_function, markKeys_function, hpq, htu], hend⟩

theorem Grammatical.listing_eq_iff {t u : TypeExpr} (ht : t.Grammatical) (hu : u.Grammatical)
    (n : ℕ) : t.listing n = u.listing n ↔ t.markKeys = u.markKeys := by
  constructor
  · intro h
    have hnone : margin [] ≤ 2 * n := Nat.zero_le _
    exact (recovered_of_grammatical t ht u hu n [] [] hnone hnone (congrArg (· ++ []) h)).1
  · intro h
    rw [← t.listing_markKeys, h, u.listing_markKeys]

/-! ## Keys without marks -/

theorem Declares.of_child {t u : TypeExpr} {key : String} (h : u.Declares key)
    (hu : u ∈ t.children) : t.Declares key := by
  obtain ⟨ps, hps, hp⟩ := h
  exact ⟨ps, subtrees_subset_of_mem_children hu hps, hp⟩

theorem declares_of_mem {ps : List (Property TypeExpr)} {p : Property TypeExpr} (h : p ∈ ps) :
    (object ps).Declares p.key :=
  ⟨ps, mem_subtrees_self _, p, h, rfl⟩

def HasUnmarkedKeys (t : TypeExpr) : Prop :=
  ∀ key, t.Declares key → key.toList.getLast? ≠ some '?'

theorem HasUnmarkedKeys.child {t u : TypeExpr} (h : t.HasUnmarkedKeys) (hu : u ∈ t.children) :
    u.HasUnmarkedKeys :=
  fun key hkey => h key (hkey.of_child hu)

theorem eq_of_marked_eq {p q : Property TypeExpr} (hp : p.key.toList.getLast? ≠ some '?')
    (hq : q.key.toList.getLast? ≠ some '?') (h : p.marked = q.marked) :
    p.key = q.key ∧ p.optional = q.optional := by
  have hlist := congrArg String.toList h
  rw [Property.toList_marked, Property.toList_marked] at hlist
  rw [← String.toList_inj]
  cases hoptional : p.optional <;> cases hoptional' : q.optional <;>
    rw [hoptional, hoptional'] at hlist
  case false.false | true.true => exact ⟨List.append_cancel_right hlist, rfl⟩
  case false.true =>
    have hkey : p.key.toList = q.key.toList ++ ['?'] := by simpa using hlist
    exact absurd (hkey ▸ List.getLast?_concat) hp
  case true.false =>
    have hkey : q.key.toList = p.key.toList ++ ['?'] := by simpa using hlist.symm
    exact absurd (hkey ▸ List.getLast?_concat) hq

theorem sameRoot_of_markKeys_eq {t u : TypeExpr} (h : t.markKeys = u.markKeys)
    (ht : t.HasUnmarkedKeys) (hu : u.HasUnmarkedKeys) :
    t.SameRoot Eq Eq u ∧
      List.Forall₂ (fun s v => s.markKeys = v.markKeys) t.children u.children := by
  cases t <;> cases u <;> try contradiction
  case literal.literal v w => exact ⟨.literal (literal.inj h), .nil⟩
  case primitive.primitive kind kind' =>
    obtain rfl := primitive.inj h
    exact ⟨.primitive kind, .nil⟩
  case named.named name name' =>
    obtain rfl := named.inj h
    exact ⟨.named name, .nil⟩
  case null.null | void.void | any.any | stray.stray => exact ⟨by constructor, .nil⟩
  case foreign.foreign =>
    obtain rfl := foreign.inj h
    exact ⟨.foreign _, .nil⟩
  case derived.derived =>
    obtain ⟨rfl, rfl⟩ := derived.inj h
    exact ⟨.derived .., List.forall₂_same.mpr fun _ _ => rfl⟩
  case nullable.nullable t u => exact ⟨.nullable t u, .cons (nullable.inj h) .nil⟩
  case array.array t u => exact ⟨.array t u, .cons (array.inj h) .nil⟩
  case tuple.tuple ts us =>
    rw [markKeys_tuple, markKeys_tuple, tuple.injEq] at h
    exact ⟨.tuple ts us, forall₂_of_map_eq h⟩
  case object.object ps qs =>
    rw [markKeys_object, markKeys_object, object.injEq] at h
    have hps := (forall₂_of_map_eq h).imp fun p q hpq => Property.mk.inj hpq
    have hmem := (List.forall₂_and_left _ _).mpr ⟨fun p hp => hp, hps⟩
    have hmem' := ((List.forall₂_and_left _ _).mpr ⟨fun q hq => hq, hmem.flip⟩).flip
    refine ⟨.object (hmem'.imp fun p q hpq => ?_), ?_⟩
    · obtain ⟨hq, hp, hmarked, -⟩ := hpq
      exact eq_of_marked_eq (ht p.key (declares_of_mem hp)) (hu q.key (declares_of_mem hq)) hmarked
    · rw [children, children, List.forall₂_map_left_iff, List.forall₂_map_right_iff]
      exact hps.imp fun p q hpq => hpq.2.2
  case union.union ts us =>
    rw [markKeys_union, markKeys_union, union.injEq] at h
    exact ⟨.union ts us, forall₂_of_map_eq h⟩
  case intersection.intersection ts us =>
    rw [markKeys_intersection, markKeys_intersection, intersection.injEq] at h
    exact ⟨.intersection ts us, forall₂_of_map_eq h⟩
  case function.function ps t qs u =>
    rw [markKeys_function, markKeys_function, function.injEq] at h
    exact ⟨.function ps qs t u, forall₂_concat_iff.mpr ⟨forall₂_of_map_eq h.1, h.2⟩⟩

theorem Grammatical.eq_of_markKeys_eq {t u : TypeExpr} (ht : t.Grammatical)
    (htkeys : t.HasUnmarkedKeys) (hukeys : u.HasUnmarkedKeys) (h : t.markKeys = u.markKeys) :
    t = u := by
  have hmatches : t.Matches Eq Eq u := by
    refine matches_of_step (E := fun t u => t.markKeys = u.markKeys ∧ t.HasUnmarkedKeys ∧
      u.HasUnmarkedKeys) ?_ t u ⟨h, htkeys, hukeys⟩
    rintro t u ⟨h, ht, hu⟩
    obtain ⟨hroot, hchildren⟩ := sameRoot_of_markKeys_eq h ht hu
    have hmem := (List.forall₂_and_left _ _).mpr ⟨fun s hs => hs, hchildren⟩
    have hmem' := ((List.forall₂_and_left _ _).mpr ⟨fun v hv => hv, hmem.flip⟩).flip
    exact ⟨hroot, hmem'.imp fun s v hsv => ⟨hsv.2.2, ht.child hsv.2.1, hu.child hsv.1⟩⟩
  exact hmatches.eq ht.isPure

/-! ## The text of a listing -/

/-- Each line of a listing is that of the type itself, of an arrow or a property, or one of the
listing of a part. -/
theorem mem_listing {t : TypeExpr} (ht : t.form ∈ Form.types) {n : ℤ} {l : List Char}
    (h : l ∈ t.listing n) :
    l = indented n t.heading ∨ (∃ m, l = indented m ['=', '>']) ∨
      (∃ ps, t = object ps ∧ ∃ p ∈ ps, ∃ m, l = indented m (p.marked.toList ++ [':'])) ∨
      ∃ u ∈ t.children, ∃ m, l ∈ u.listing m := by
  have hparts {ts : List TypeExpr} {m : ℤ} (h : l ∈ ts.flatMap (listing m)) :
      ∃ u ∈ ts, ∃ m, l ∈ u.listing m := by
    obtain ⟨u, hu, hl⟩ := List.mem_flatMap.mp h
    exact ⟨u, hu, m, hl⟩
  cases t with
  | nullable t | array t =>
    rcases List.mem_cons.mp h with h | h
    · exact .inl h
    · exact .inr (.inr (.inr ⟨t, List.mem_cons_self, _, h⟩))
  | tuple ts =>
    rw [listing_tuple] at h
    exact (List.mem_cons.mp h).imp_right fun h => .inr (.inr (hparts h))
  | union ts =>
    rw [listing_union] at h
    exact (List.mem_cons.mp h).imp_right fun h => .inr (.inr (hparts h))
  | intersection ts =>
    rw [listing_intersection] at h
    exact (List.mem_cons.mp h).imp_right fun h => .inr (.inr (hparts h))
  | object ps =>
    rw [listing_object] at h
    refine (List.mem_cons.mp h).imp_right fun h => .inr ?_
    obtain ⟨p, hp, hl⟩ := List.mem_flatMap.mp h
    rcases List.mem_cons.mp hl with hl | hl
    · exact .inl ⟨ps, rfl, p, hp, _, hl⟩
    · exact .inr ⟨p.value, List.mem_map_of_mem hp, _, hl⟩
  | function ps t =>
    rw [listing_function] at h
    refine (List.mem_cons.mp h).imp_right fun h => ?_
    rcases List.mem_append.mp h with h | h
    · obtain ⟨u, hu, hl⟩ := hparts h
      exact .inr (.inr ⟨u, List.mem_append_left _ hu, hl⟩)
    · rcases List.mem_cons.mp h with h | h
      · exact .inl ⟨_, h⟩
      · exact .inr (.inr ⟨t, List.mem_append_right _ (List.mem_singleton_self t), _, h⟩)
  | derived className => exact absurd ht (Form.other_not_mem_types className)
  | _ => exact .inl (List.mem_singleton.mp h)

theorem newline_not_mem_indented {cs : List Char} (h : '\n' ∉ cs) (n : ℤ) :
    '\n' ∉ indented n cs := by
  rw [indented, List.mem_append, not_or]
  exact ⟨fun hmem => absurd (List.eq_of_mem_replicate hmem) (by decide), h⟩

theorem newline_not_mem_name {name : String} (h : IsName name) : '\n' ∉ name.toList := by
  rcases h with ⟨digits, hname, -, hdigits⟩ | ⟨hword, -⟩
  · rw [hname]
    intro hmem
    simp only [List.mem_cons, Char.reduceEq, false_or] at hmem
    exact absurd (hdigits _ hmem) (by decide)
  · exact fun hmem => absurd (hword.all _ hmem) (by decide)

theorem Grammatical.isName {name : String} (h : (TypeExpr.named name).Grammatical) :
    IsName name := by
  cases h with
  | named hname => exact hname
  | keyword hk => cases hk

theorem newline_not_mem_alpha {cs : List Char} (h : ∀ c ∈ cs, c.isAlpha = true) : '\n' ∉ cs :=
  fun hmem => absurd (h _ hmem) (by decide)

theorem Grammatical.newline_not_mem_heading {t : TypeExpr} (h : t.Grammatical) :
    '\n' ∉ t.heading := by
  have hargs {head cs : List Char} (hhead : '\n' ∉ head) (hcs : '\n' ∉ cs) :
      '\n' ∉ head ++ cs ++ [')'] := by
    simp [hhead, hcs]
  cases t with
  | literal v => exact hargs (by decide) v.newline_not_mem_display
  | primitive kind =>
    have hkind : ∀ k ∈ Primitive.written, '\n' ∉ k.name.toList := by decide
    exact hargs (by decide) (hkind kind h.kind_mem)
  | named name => exact hargs (by decide) (newline_not_mem_name h.isName)
  | derived className => exact absurd h.isPure.root (Form.other_not_mem_types className)
  | _ => exact newline_not_mem_alpha (Form.isAlpha_name h.isPure.root)

theorem Grammatical.newline_not_mem_listing (t : TypeExpr) : t.Grammatical →
    (∀ key, t.Declares key → '\n' ∉ key.toList) → ∀ (n : ℤ), ∀ l ∈ t.listing n, '\n' ∉ l := by
  induction t using children_induction with
  | h t ih =>
    intro ht hkeys n l hl
    rcases mem_listing ht.isPure.root hl with rfl | ⟨m, rfl⟩ | ⟨ps, rfl, p, hp, m, rfl⟩ | ⟨u, hu, m, hl⟩
    · exact newline_not_mem_indented ht.newline_not_mem_heading n
    · exact newline_not_mem_indented (by decide) m
    · refine newline_not_mem_indented ?_ m
      have hkey := hkeys p.key (declares_of_mem hp)
      rw [Property.toList_marked]
      split_ifs <;> simp [hkey]
    · exact ih u hu (ht.child hu) (fun key hkey => hkeys key (hkey.of_child hu)) m l hl

theorem grammatical_of_parse {source : String} {t : TypeExpr} (h : parse source = .ok t) :
    t.Grammatical := by
  obtain ⟨rest, hphrase, -⟩ := parse_eq_ok_iff.mp h
  exact hphrase.denotes

theorem Grammatical.listingText_eq_iff {t u : TypeExpr} (ht : t.Grammatical) (hu : u.Grammatical)
    (htkeys : ∀ key, t.Declares key → '\n' ∉ key.toList)
    (hukeys : ∀ key, u.Declares key → '\n' ∉ key.toList) (n : ℤ) :
    t.listingText n = u.listingText n ↔ t.listing n = u.listing n := by
  constructor
  · intro h
    have hlines := congrArg lines (String.ofList_inj.mp h)
    rw [lines_flatMap_newline (ht.newline_not_mem_listing t htkeys n),
      lines_flatMap_newline (hu.newline_not_mem_listing u hukeys n)] at hlines
    exact List.append_cancel_right hlines
  · intro h
    rw [listingText, listingText, h]

/-! ## Types of texts -/

/-- The listings of the types of two texts have the same lines exactly if the types are the same but
for marks that one has in a key and the other behind it. If there is no line feed in their keys, the
same holds of the listings as texts, and if no key ends in a mark either, these tell the types. -/
theorem listing_tells {source source' : String} {t u : TypeExpr} (ht : parse source = .ok t)
    (hu : parse source' = .ok u) (n : ℕ) :
    (t.listing n = u.listing n ↔ t.markKeys = u.markKeys) ∧
      ((∀ key, t.Declares key ∨ u.Declares key → '\n' ∉ key.toList) →
        (t.listingText n = u.listingText n ↔ t.markKeys = u.markKeys) ∧
          (t.HasUnmarkedKeys → u.HasUnmarkedKeys →
            (t.listingText n = u.listingText n ↔ t = u))) := by
  have htree := grammatical_of_parse ht
  have htree' := grammatical_of_parse hu
  have hlines := htree.listing_eq_iff htree' n
  refine ⟨hlines, fun hkeys => ?_⟩
  have htext : t.listingText n = u.listingText n ↔ t.markKeys = u.markKeys :=
    (htree.listingText_eq_iff htree' (fun key hkey => hkeys key (.inl hkey))
      (fun key hkey => hkeys key (.inr hkey)) n).trans hlines
  refine ⟨htext, fun htunmarked huunmarked => htext.trans ⟨?_, ?_⟩⟩
  · exact htree.eq_of_markKeys_eq htunmarked huunmarked
  · rintro rfl
    rfl

/-- An optional property and a property whose key ends in a question mark have one listing, and a
property that is not optional has another one. -/
theorem listing_tells_of_marks :
    let t (key : String) (optional : Bool) : TypeExpr :=
      object [⟨key, optional, primitive .string⟩]
    parse "\x7b a?: string \x7d" = .ok (t "a" true) ∧
      parse "\x7b \"a?\": string \x7d" = .ok (t "a?" false) ∧
      parse "\x7b a: string \x7d" = .ok (t "a" false) ∧
      (t "a" true).listingText 0 = (t "a?" false).listingText 0 ∧
      (t "a" true).listingText 0 ≠ (t "a" false).listingText 0 := by
  intro t
  have hmarked : parseText (expandTabs "\x7b a?: string \x7d".toList) = .ok (t "a" true) := by cbv
  have hquoted : parseText (expandTabs "\x7b \"a?\": string \x7d".toList) = .ok (t "a?" false) := by
    cbv
  have hplain : parseText (expandTabs "\x7b a: string \x7d".toList) = .ok (t "a" false) := by cbv
  rw [← parse_eq_ok_iff_parseText] at hmarked hquoted hplain
  have hdeclares {key : String} {optional : Bool} {k : String} :
      (t key optional).Declares k ↔ k = key := by
    simp [t, Declares, subtrees, subtrees.ofProperties, eq_comm]
  have hunmarked (optional : Bool) : (t "a" optional).HasUnmarkedKeys := by
    intro key hkey
    rw [hdeclares.mp hkey]
    decide
  refine ⟨hmarked, hquoted, hplain, ?_, ?_⟩
  · obtain ⟨htext, -⟩ := (listing_tells hmarked hquoted 0).2 fun key hkey => by
      rw [hdeclares, hdeclares] at hkey
      rcases hkey with rfl | rfl <;> decide
    exact htext.mpr rfl
  · obtain ⟨-, htells⟩ := (listing_tells hmarked hplain 0).2 fun key hkey => by
      rw [hdeclares, hdeclares, or_self] at hkey
      rw [hkey]
      decide
    intro h
    have htrees := (htells (hunmarked true) (hunmarked false)).mp h
    simp [t] at htrees

/-- A key with line feeds looks like lines of its own. -/
example :
    (object [⟨"a:\n    PrimitiveType(string)\n  b", false, primitive .number⟩]).listingText 0 =
      (object [⟨"a", false, primitive .string⟩, ⟨"b", false, primitive .number⟩]).listingText 0 :=
  rfl

end TypeExpr

end TypeGuard
