import TypeGuard.Proofs.Grammar.Escapes
import TypeGuard.Proofs.Number.Writing
import TypeGuard.Proofs.TypeExpr.Matching
import TypeGuard.Proofs.TypeExpr.RoundTrip

/-! # Readability

The text of a tree shows its literals and keys: trees that match and are written alike have literals
that are written alike, and the same keys. Names may stand for references that are written in any
way.
-/

namespace TypeGuard

open Grammar

/-! ## Where literals end -/

def closers : List Char :=
  [',', ']', '>', ' ', ')']

/-- Nothing, or a text behind a part of a type. -/
def Closed (rest : List Char) : Prop :=
  ∀ c ∈ rest.head?, c ∈ closers

theorem closed_nil : Closed [] := by
  simp [Closed]

theorem closed_cons {c : Char} (h : c ∈ closers) (rest : List Char) : Closed (c :: rest) := by
  simpa [Closed] using h

theorem append_inj_of_closed {xs ys r r' : List Char} (hxs : ∀ c ∈ xs, c ∉ closers)
    (hys : ∀ c ∈ ys, c ∉ closers) (hr : Closed r) (hr' : Closed r') (h : xs ++ r = ys ++ r') :
    xs = ys ∧ r = r' := by
  induction xs generalizing ys with
  | nil =>
    cases ys with
    | nil => exact ⟨rfl, h⟩
    | cons y ys =>
      rw [List.nil_append] at h
      subst h
      exact absurd (hr y rfl) (hys y List.mem_cons_self)
  | cons x xs ih =>
    cases ys with
    | nil =>
      rw [List.nil_append] at h
      subst h
      exact absurd (hr' x rfl) (hxs x List.mem_cons_self)
    | cons y ys =>
      obtain ⟨rfl, htail⟩ := List.cons.inj h
      obtain ⟨rfl, hrest⟩ := ih (fun c hc => hxs c (List.mem_cons_of_mem _ hc))
        (fun c hc => hys c (List.mem_cons_of_mem _ hc)) htail
      exact ⟨rfl, hrest⟩

def IsNumberChar (c : Char) : Prop :=
  c.isDigit = true ∨ c ∈ ['.', 'e', '+', '-', 'i', 'n', 'f', 'a']

theorem isNumberChar_digitChars (n : ℕ) : ∀ c ∈ digitChars n, IsNumberChar c :=
  fun c hc => .inl (isDigit_digitChars n c hc)

theorem isNumberChar_intChars (i : ℤ) : ∀ c ∈ intChars i, IsNumberChar c := by
  unfold intChars
  split
  · exact List.forall_mem_cons.mpr ⟨.inr (by decide), isNumberChar_digitChars _⟩
  · exact isNumberChar_digitChars _

namespace Binary64

theorem isNumberChar_exponentChars (e : ℤ) : ∀ c ∈ exponentChars e, IsNumberChar c := by
  unfold exponentChars
  refine List.forall_mem_cons.mpr ⟨.inr (by split <;> decide), ?_⟩
  split
  · exact List.forall_mem_cons.mpr ⟨.inl rfl, isNumberChar_digitChars _⟩
  · exact isNumberChar_digitChars _

theorem isNumberChar_layOut {ds : List Char} (hds : ∀ c ∈ ds, IsNumberChar c) (magnitude : ℤ) :
    ∀ c ∈ layOut ds magnitude, IsNumberChar c := by
  have hzeros (n : ℕ) : ∀ c ∈ List.replicate n '0', IsNumberChar c := by
    intro c hc
    rw [List.eq_of_mem_replicate hc]
    exact .inl rfl
  have hpoint {cs : List Char} (hcs : ∀ c ∈ cs, IsNumberChar c) : ∀ c ∈ '.' :: cs, IsNumberChar c :=
    List.forall_mem_cons.mpr ⟨.inr (by decide), hcs⟩
  unfold layOut
  split_ifs
  · cases ds with
    | nil => exact fun c hc => absurd hc List.not_mem_nil
    | cons d ds =>
      obtain ⟨hd, hds⟩ := List.forall_mem_cons.mp hds
      have hexponent : ∀ c ∈ 'e' :: exponentChars magnitude, IsNumberChar c :=
        List.forall_mem_cons.mpr ⟨.inr (by decide), isNumberChar_exponentChars magnitude⟩
      refine List.forall_mem_append.mpr ⟨List.forall_mem_cons.mpr ⟨hd, ?_⟩, hexponent⟩
      split_ifs
      · exact fun c hc => absurd hc List.not_mem_nil
      · exact hpoint hds
  · exact List.forall_mem_cons.mpr
      ⟨.inl rfl, hpoint (List.forall_mem_append.mpr ⟨hzeros _, hds⟩)⟩
  · refine List.forall_mem_append.mpr ⟨List.forall_mem_append.mpr ⟨?_, hzeros _⟩, hpoint ?_⟩
    · exact fun c hc => hds c (List.mem_of_mem_take hc)
    · split_ifs
      · exact hzeros 1
      · exact fun c hc => hds c (List.mem_of_mem_drop hc)

theorem isNumberChar_chars (x : Binary64) : ∀ c ∈ x.chars, IsNumberChar c := by
  have htrim {cs : List Char} : trimZeros cs ⊆ cs := fun c hc =>
    List.mem_reverse.mp ((List.dropWhile_sublist _).subset (List.mem_reverse.mp hc))
  have hmagnitude (significand : ℕ) (exponent : ℤ) :
      ∀ c ∈ magnitudeChars significand exponent, IsNumberChar c := by
    unfold magnitudeChars
    dsimp only
    split_ifs
    · simp [IsNumberChar]
    · exact isNumberChar_layOut (fun c hc => isNumberChar_digitChars _ c (htrim hc)) _
  cases x with
  | nan => simp [chars, IsNumberChar]
  | infinity negative => cases negative <;> simp [chars, IsNumberChar]
  | finite negative significand exponent =>
    cases negative with
    | false => exact hmagnitude significand exponent
    | true => exact List.forall_mem_cons.mpr ⟨.inr (by decide), hmagnitude significand exponent⟩

end Binary64

namespace Literal

theorem not_mem_chars {x : Literal} (hx : ∀ s, x ≠ str s) : ∀ c ∈ '"' :: closers, c ∉ x.chars := by
  have hnumber : ∀ c ∈ '"' :: closers, ¬ IsNumberChar c := by
    simp [closers, IsNumberChar]
  cases x with
  | bool b => cases b <;> simp [closers, chars]
  | str s => exact absurd rfl (hx s)
  | int i => exact fun c hc hmem => hnumber c hc (isNumberChar_intChars i c hmem)
  | float x => exact fun c hc hmem => hnumber c hc (x.isNumberChar_chars c hmem)

theorem not_quoted_of_not_str {x : Literal} (hx : ∀ s, x ≠ str s) {r xs : List Char} (hr : Closed r) :
    x.chars ++ r ≠ '"' :: xs := by
  intro h
  cases hchars : x.chars with
  | nil =>
    rw [hchars, List.nil_append] at h
    subst h
    exact absurd (hr '"' rfl) (by decide)
  | cons c cs =>
    rw [hchars] at h
    have hmem : '"' ∈ x.chars := by
      rw [hchars, (List.cons.inj h).1]
      exact List.mem_cons_self
    exact not_mem_chars hx '"' List.mem_cons_self hmem

theorem chars_append_inj {x y : Literal} {r r' : List Char} (hr : Closed r) (hr' : Closed r')
    (h : x.chars ++ r = y.chars ++ r') : x.chars = y.chars ∧ r = r' := by
  by_cases hx : ∃ s, x = str s
  · obtain ⟨s, rfl⟩ := hx
    by_cases hy : ∃ s, y = str s
    · obtain ⟨s', rfl⟩ := hy
      obtain ⟨hchars, hrest⟩ := literal_append_inj h
      exact ⟨congrArg Text.literal hchars, hrest⟩
    · exact absurd h.symm (not_quoted_of_not_str (not_exists.mp hy) hr')
  · by_cases hy : ∃ s, y = str s
    · obtain ⟨s, rfl⟩ := hy
      exact absurd h (not_quoted_of_not_str (not_exists.mp hx) hr)
    · refine append_inj_of_closed (fun c hc hmem => ?_) (fun c hc hmem => ?_) hr hr' h
      · exact not_mem_chars (not_exists.mp hx) c (List.mem_cons_of_mem _ hmem) hc
      · exact not_mem_chars (not_exists.mp hy) c (List.mem_cons_of_mem _ hmem) hc

end Literal

/-! ## Texts that tell something -/

/-- Two texts that can be the same, each with something behind it, only if a fact holds; they then
end at the same place. -/
def Tells (cs ds : List Char) (P : Prop) : Prop :=
  ∀ r r', Closed r → Closed r' → cs ++ r = ds ++ r' → P ∧ r = r'

namespace Tells

variable {cs ds cs' ds' : List Char} {P Q : Prop}

theorem refl (cs : List Char) : Tells cs cs True :=
  fun _ _ _ _ h => ⟨trivial, List.append_cancel_left h⟩

theorem imp (h : Tells cs ds P) (hPQ : P → Q) : Tells cs ds Q :=
  fun r r' hr hr' heq => (h r r' hr hr' heq).imp_left hPQ

theorem behind (before : List Char) (h : Tells cs ds P) : Tells (before ++ cs) (before ++ ds) P := by
  intro r r' hr hr' heq
  rw [List.append_assoc, List.append_assoc] at heq
  exact h r r' hr hr' (List.append_cancel_left heq)

theorem quoted (h : Tells cs ds P) (s s' : String) :
    Tells (Text.literal s.toList ++ cs) (Text.literal s'.toList ++ ds) (s = s' ∧ P) := by
  intro r r' hr hr' heq
  rw [List.append_assoc, List.append_assoc] at heq
  obtain ⟨htexts, hrest⟩ := literal_append_inj heq
  obtain ⟨hP, hend⟩ := h r r' hr hr' hrest
  exact ⟨⟨String.toList_inj.mp htexts, hP⟩, hend⟩

theorem append {c : Char} (h : Tells cs ds P) (hc : c ∈ closers) (h' : Tells cs' ds' Q) :
    Tells (cs ++ c :: cs') (ds ++ c :: ds') (P ∧ Q) := by
  intro r r' hr hr' heq
  rw [List.append_assoc, List.append_assoc] at heq
  obtain ⟨hP, hrest⟩ := h _ _ (closed_cons hc _) (closed_cons hc _) heq
  obtain ⟨hQ, hend⟩ := h' r r' hr hr' (List.cons.inj hrest).2
  exact ⟨⟨hP, hQ⟩, hend⟩

theorem before {c : Char} (h : Tells cs ds P) (hc : c ∈ closers) (after : List Char) :
    Tells (cs ++ c :: after) (ds ++ c :: after) P :=
  (h.append hc (refl after)).imp And.left

theorem parenthesize (h : Tells cs ds P) (level required : Level) :
    Tells (TypeGuard.parenthesize level required cs) (TypeGuard.parenthesize level required ds) P := by
  unfold TypeGuard.parenthesize
  split
  · exact (h.before (by decide) []).behind ['(']
  · exact h

end Tells

/-! ## Trees -/

namespace TypeExpr

variable (labels labels' : Labels) {R : Literal → Literal → Prop} {K : String → String → Prop}
  {Q : TypeExpr → TypeExpr → Prop}

/-- The texts of two trees, at any place, tell that they are related. -/
def TextsTell (Q : TypeExpr → TypeExpr → Prop) (t u : TypeExpr) : Prop :=
  ∀ required, Tells (t.render labels required) (u.render labels' required) (Q t u)

variable {labels labels'}

theorem tells_renderAll {ts us : List TypeExpr} (h : List.Forall₂ (TextsTell labels labels' Q) ts us)
    (required : Level) {c : Char} (hc : c ∈ closers) (separator : List Char) :
    Tells (render.renderAll labels required (c :: separator) ts)
      (render.renderAll labels' required (c :: separator) us) (List.Forall₂ Q ts us) := by
  induction h with
  | nil => exact (Tells.refl []).imp fun _ => .nil
  | cons htu hrest ih =>
    cases hrest with
    | nil => exact (htu required).imp fun h => .cons h .nil
    | cons =>
      have h := (htu required).append hc (ih.behind separator)
      simp only [render.renderAll, List.append_assoc, List.cons_append]
      exact h.imp fun h => .cons h.1 h.2

theorem tells_renderProperties {ps qs : List (Property TypeExpr)}
    (h : List.Forall₂ (fun p q => p.optional = q.optional ∧ TextsTell labels labels' Q p.value q.value)
      ps qs) :
    Tells (render.renderProperties labels ps) (render.renderProperties labels' qs)
      (List.Forall₂ (fun p q => (p.key = q.key ∧ p.optional = q.optional) ∧ Q p.value q.value)
        ps qs) := by
  induction h with
  | nil => exact (Tells.refl []).imp fun _ => .nil
  | @cons p q _ _ hpq hrest ih =>
    obtain ⟨key, optional, value⟩ := p
    obtain ⟨key', _, value'⟩ := q
    obtain ⟨rfl, hvalue⟩ := hpq
    have hproperty := ((hvalue .function).behind
      ((if optional then ['?'] else []) ++ [':', ' '])).quoted key key'
    cases hrest with
    | nil =>
      simp only [render.renderProperties, List.append_assoc] at hproperty ⊢
      exact hproperty.imp fun h => .cons ⟨⟨h.1, rfl⟩, h.2⟩ .nil
    | cons =>
      have h := hproperty.append (c := ',') (by decide) (ih.behind [' '])
      simp only [render.renderProperties, List.append_assoc, List.cons_append,
        List.nil_append] at h ⊢
      exact h.imp fun h => .cons ⟨⟨h.1.1, rfl⟩, h.1.2⟩ h.2

theorem render_function (labels : Labels) (ps : List TypeExpr) (t : TypeExpr) (required : Level) :
    (function ps t).render labels required = parenthesize .function required
      (['('] ++ (render.renderAll labels .function [',', ' '] ps ++
        ')' :: (" => ".toList ++ t.render labels .function))) := by
  have hclose (xs ys : List Char) : '(' :: xs ++ ") => ".toList ++ ys =
      ['('] ++ (xs ++ ')' :: (" => ".toList ++ ys)) := by simp
  exact congrArg (parenthesize .function required) (hclose _ _)

/-- Trees that match and are written alike, with the same labels for their names, have literals that
are written alike, and the same keys. -/
theorem Matches.textsTell {t u : TypeExpr} (h : t.Matches R K u) (hpure : t.IsPure)
    (hnames : ∀ x, named x ∈ t.subtrees → labels x = labels' x) :
    TextsTell labels labels' (Matches (fun x y => R x y ∧ x.chars = y.chars) Eq) t u := by
  have hall : ∀ s ∈ t.subtrees, s.form ∈ Form.types ∧ ∀ x, s = named x → labels x = labels' x := by
    refine fun s hs => ⟨hpure s hs, ?_⟩
    rintro x rfl
    exact hnames x hs
  refine Matches.induction_of_subtrees (fun t u hroot hroot' ih required => ?_) h hall
  cases hroot with
  | literal hxy =>
    intro r r' hr hr' heq
    obtain ⟨hchars, hend⟩ := Literal.chars_append_inj hr hr' heq
    exact ⟨.mk (.literal ⟨hxy, hchars⟩) .nil, hend⟩
  | primitive kind => exact (Tells.refl _).imp fun _ => .mk (.primitive kind) .nil
  | null => exact (Tells.refl _).imp fun _ => .mk .null .nil
  | void => exact (Tells.refl _).imp fun _ => .mk .void .nil
  | any => exact (Tells.refl _).imp fun _ => .mk .any .nil
  | nullable t u =>
    have h := (((List.forall₂_cons.mp ih).1 .nullable).behind ['?']).parenthesize .nullable required
    exact h.imp fun h => .mk (.nullable t u) (.cons h .nil)
  | array t u =>
    have h := (((List.forall₂_cons.mp ih).1 .function).before (c := '>') (by decide) []).behind
      "Array<".toList
    exact h.imp fun h => .mk (.array t u) (.cons h .nil)
  | tuple ts us =>
    have h := ((tells_renderAll ih .function (c := ',') (by decide) [' ']).before (c := ']')
      (by decide) []).behind ['[']
    exact h.imp fun h => .mk (.tuple ts us) h
  | @object ps qs hkeys =>
    rw [children, children, List.forall₂_map_left_iff, List.forall₂_map_right_iff] at ih
    have hproperties := hkeys.mp
      (fun p q hkey h => (⟨hkey.2, h⟩ : p.optional = q.optional ∧ TextsTell labels labels' _ _ _)) ih
    cases hproperties with
    | nil => exact (Tells.refl _).imp fun _ => matches_object .nil
    | cons hp hps =>
      have h := ((tells_renderProperties (.cons hp hps)).before (c := ' ') (by decide) ['}']).behind
        ['{', ' ']
      exact h.imp matches_object
  | union ts us =>
    have h := (tells_renderAll ih .intersection (c := ' ') (by decide) ['|', ' ']).parenthesize
      .union required
    exact h.imp fun h => .mk (.union ts us) h
  | intersection ts us =>
    have h := (tells_renderAll ih .nullable (c := ' ') (by decide) ['&', ' ']).parenthesize
      .intersection required
    exact h.imp fun h => .mk (.intersection ts us) h
  | named name =>
    change Tells (renderName labels required name) (renderName labels' required name) _
    rw [renderName, renderName, hroot'.2 name rfl]
    exact (Tells.refl _).imp fun _ => .mk (.named name) .nil
  | function ps qs t u =>
    obtain ⟨hps, ht⟩ := forall₂_concat_iff.mp ih
    have h := (((tells_renderAll hps .function (c := ',') (by decide) [' ']).append (c := ')')
      (by decide) ((ht .function).behind " => ".toList)).behind ['(']).parenthesize
        .function required
    rw [render_function, render_function]
    exact h.imp fun h => matches_function h.1 h.2
  | stray p q => exact (Tells.refl _).imp fun _ => .mk (.stray p q) .nil
  | foreign className => exact (Tells.refl _).imp fun _ => .mk (.foreign className) .nil
  | derived className => exact absurd hroot'.1 (Form.other_not_mem_types className)

/-! ## Grammatical trees -/

theorem Grammatical.isPure {t : TypeExpr} (h : t.Grammatical) : t.IsPure := by
  have hnone {P : TypeExpr → Prop} : ∀ u ∈ [], P u := fun _ hu => absurd hu List.not_mem_nil
  induction h with
  | literal | named => exact isPure_iff.mpr ⟨by simp [form, Form.types], hnone⟩
  | keyword hk => cases hk <;> exact isPure_iff.mpr ⟨by simp [form, Form.types], hnone⟩
  | nullable _ ih | array _ ih =>
    exact isPure_iff.mpr ⟨by simp [form, Form.types], List.forall_mem_singleton.mpr ih⟩
  | tuple _ ih | union _ _ ih | intersection _ _ ih =>
    exact isPure_iff.mpr ⟨by simp [form, Form.types], ih⟩
  | object _ ih =>
    exact isPure_iff.mpr ⟨by simp [form, Form.types], List.forall_mem_map.mpr ih⟩
  | function _ _ ihps iht =>
    exact isPure_iff.mpr ⟨by simp [form, Form.types],
      List.forall_mem_append.mpr ⟨ihps, List.forall_mem_singleton.mpr iht⟩⟩

end TypeExpr

end TypeGuard
