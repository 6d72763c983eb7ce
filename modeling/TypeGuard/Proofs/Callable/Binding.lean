import Mathlib
import TypeGuard.Callable.Parameter

/-! # Binding

When the arguments of a call fit a list of parameters, by their number and the names of the keywords
alone. By position, as many arguments as the arity fit if and only if no parameter that takes a
keyword only needs one.
-/

namespace TypeGuard

def ParameterKind.rank : ParameterKind → ℕ
  | positionalOnly => 0
  | positional => 1
  | rest => 2
  | keywordOnly => 3
  | keywords => 4

namespace Parameter

variable {α : Type} {ps : List Parameter} {p : Parameter} {keys : List String} {n m : ℕ}

/-- A parameter can be declared somewhere before another one: names differ, kinds stand in order, and
after a parameter with a default all positional ones have one. -/
structure Precedes (p q : Parameter) : Prop where
  name_ne : p.name ≠ q.name
  rank_le : p.kind.rank ≤ q.kind.rank
  default : p.hasDefault = true → q.isPositional = true → q.hasDefault = true

instance (p q : Parameter) : Decidable (Precedes p q) :=
  decidable_of_iff (p.name ≠ q.name ∧ p.kind.rank ≤ q.kind.rank ∧
      (p.hasDefault = true → q.isPositional = true → q.hasDefault = true))
    ⟨fun h => ⟨h.1, h.2.1, h.2.2⟩, fun h => ⟨h.name_ne, h.rank_le, h.default⟩⟩

/-- A list of parameters that a callable can declare. -/
def Declared (ps : List Parameter) : Prop :=
  ps.Pairwise Precedes

instance : DecidablePred Declared :=
  fun ps => inferInstanceAs (Decidable (ps.Pairwise Precedes))

theorem isPositional_iff : p.isPositional = true ↔ p.kind.rank ≤ 1 := by
  unfold isPositional
  cases p.kind <;> simp [ParameterKind.rank]

theorem Precedes.isPositional {q : Parameter} (h : Precedes p q) (hq : q.isPositional = true) :
    p.isPositional = true := by
  rw [isPositional_iff] at hq ⊢
  exact h.rank_le.trans hq

def positionals (ps : List Parameter) : List Parameter :=
  ps.filter isPositional

theorem mem_positionals : p ∈ positionals ps ↔ p ∈ ps ∧ p.isPositional = true :=
  List.mem_filter

theorem positionals_append (ps qs : List Parameter) :
    positionals (ps ++ qs) = positionals ps ++ positionals qs :=
  List.filter_append ps qs

theorem positionals_eq_nil (h : ∀ p ∈ ps, p.isPositional = false) : positionals ps = [] :=
  List.filter_eq_nil_iff.mpr fun p hp => by simp [h p hp]

theorem positionals_eq_self (h : ∀ p ∈ ps, p.isPositional = true) : positionals ps = ps :=
  List.filter_eq_self.mpr h

/-! ## Arguments that fit -/

def IsNamed (keys : List String) (p : Parameter) : Prop :=
  ∃ key ∈ keys, p.takesKeyword key = true

theorem isNamed_iff :
    p.IsNamed keys ↔ (p.kind = .positional ∨ p.kind = .keywordOnly) ∧ p.name ∈ keys := by
  simp only [IsNamed, takesKeyword, Bool.and_eq_true, Bool.or_eq_true, decide_eq_true_eq]
  constructor
  · rintro ⟨key, hkey, hkind, rfl⟩
    exact ⟨hkind, hkey⟩
  · rintro ⟨hkind, hname⟩
    exact ⟨p.name, hname, hkind, rfl⟩

theorem not_isNamed_nil (p : Parameter) : ¬ p.IsNamed [] := by
  rintro ⟨key, hkey, -⟩
  exact List.not_mem_nil hkey

/-- A number of arguments and some keywords have a place: there is room for all arguments, and each
keyword names a parameter that has no argument yet, unless further keywords are taken. -/
structure Admits (ps : List Parameter) (n : ℕ) (keys : List String) : Prop where
  room : n ≤ (positionals ps).length ∨ ∃ p ∈ ps, p.kind = .rest
  free : ∀ p ∈ (positionals ps).take n, ¬ p.IsNamed keys
  known : ∀ key ∈ keys, (∃ p ∈ ps, p.takesKeyword key = true) ∨ ∃ p ∈ ps, p.kind = .keywords

/-- A number of arguments and some keywords have a place, and every parameter without an argument
has a default or takes any number of them. -/
structure Fits (ps : List Parameter) (n : ℕ) (keys : List String) : Prop
    extends Admits ps n keys where
  positional : ∀ p ∈ (positionals ps).drop n, p.hasDefault = true ∨ p.IsNamed keys
  keywordOnly : ∀ p ∈ ps, p.kind = .keywordOnly → p.hasDefault = true ∨ p.IsNamed keys

theorem eq_of_takesKeyword {q : Parameter} {key : String} (h : Declared ps) (hp : p ∈ ps)
    (hq : q ∈ ps) (hpk : p.takesKeyword key = true) (hqk : q.takesKeyword key = true) : p = q := by
  have hname : p.name = q.name := by
    simp only [takesKeyword, Bool.and_eq_true, decide_eq_true_eq] at hpk hqk
    exact hpk.2.trans hqk.2.symm
  by_contra hne
  have hnames : (ps.map name).Nodup := List.pairwise_map.mpr (h.imp Precedes.name_ne)
  exact hne (List.inj_on_of_nodup_map hnames hp hq hname)

theorem admitsKey_iff (h : Declared ps) (key : String) :
    (match ps.find? (·.takesKeyword key) with
      | some p => !((positionals ps).take n).contains p
      | none => ps.any (·.kind = .keywords)) = true ↔
      (∀ p ∈ (positionals ps).take n, ¬ p.takesKeyword key = true) ∧
        ((∃ p ∈ ps, p.takesKeyword key = true) ∨ ∃ p ∈ ps, p.kind = .keywords) := by
  have hsub : ∀ p ∈ (positionals ps).take n, p ∈ ps := fun p hp =>
    (mem_positionals.mp (List.mem_of_mem_take hp)).1
  cases hfind : ps.find? (·.takesKeyword key) with
  | none =>
    have hnone : ∀ p ∈ ps, ¬ p.takesKeyword key = true := List.find?_eq_none.mp hfind
    have hnamed : ¬ ∃ p ∈ ps, p.takesKeyword key = true := fun ⟨p, hp, hk⟩ => hnone p hp hk
    simp only [List.any_eq_true, decide_eq_true_eq, hnamed, false_or]
    exact (and_iff_right fun p hp => hnone p (hsub p hp)).symm
  | some p =>
    have hp : p ∈ ps := List.mem_of_find?_eq_some hfind
    have hk : p.takesKeyword key = true := by simpa using List.find?_some hfind
    simp only [Bool.not_eq_true', List.contains_eq_mem, decide_eq_false_iff_not]
    constructor
    · intro hfree
      refine ⟨fun q hq hqk => hfree ?_, .inl ⟨p, hp, hk⟩⟩
      rwa [eq_of_takesKeyword h hp (hsub q hq) hk hqk]
    · rintro ⟨hfree, -⟩ hgiven
      exact hfree p hgiven hk

theorem admits_iff (h : Declared ps) (args : List α) (keywords : List (String × α)) :
    admits ps args keywords = true ↔ Admits ps args.length (keywords.map Prod.fst) := by
  have hkeys := fun key => admitsKey_iff (n := args.length) h key
  simp only [positionals] at hkeys
  simp only [admits, Bool.and_eq_true, Bool.or_eq_true, decide_eq_true_eq, List.all_eq_true,
    List.any_eq_true, Prod.forall] at hkeys ⊢
  constructor
  · rintro ⟨hroom, hall⟩
    refine ⟨hroom, ?_, ?_⟩
    · rintro p hp ⟨key, hkey, hk⟩
      obtain ⟨⟨key, v⟩, hmem, rfl⟩ := List.mem_map.mp hkey
      exact ((hkeys key).mp (hall key v hmem)).1 p hp hk
    · intro key hkey
      obtain ⟨⟨key, v⟩, hmem, rfl⟩ := List.mem_map.mp hkey
      exact ((hkeys key).mp (hall key v hmem)).2
  · rintro ⟨hroom, hfree, hknown⟩
    refine ⟨hroom, fun key v hmem => (hkeys key).mpr ⟨fun p hp hk => ?_, ?_⟩⟩
    · exact hfree p hp ⟨key, List.mem_map.mpr ⟨(key, v), hmem, rfl⟩, hk⟩
    · exact hknown key (List.mem_map.mpr ⟨(key, v), hmem, rfl⟩)

theorem isSome_bindPositional_iff (absent : α) (keywords : List (String × α))
    (hps : ∀ p ∈ ps, p.isPositional = true) (args : List α) :
    (bindPositional absent keywords ps args).isSome = true ↔
      ∀ p ∈ ps.drop args.length, p.hasDefault = true ∨ p.IsNamed (keywords.map Prod.fst) := by
  induction ps generalizing args with
  | nil => simp [bindPositional]
  | cons p ps ih =>
    obtain ⟨hp, hps⟩ := List.forall_mem_cons.mp hps
    cases args with
    | cons a args => simpa [bindPositional] using ih hps args
    | nil =>
      have hgiven : (if p.kind = .positional then keywords.lookup p.name else none).isSome = true ↔
          p.IsNamed (keywords.map Prod.fst) := by
        have hkind : p.kind ≠ .keywordOnly := by
          intro hk
          simp [isPositional, hk] at hp
        rw [isNamed_iff]
        split
        · next hk => simp [hk]
        · next hk => simp [hk, hkind]
      have htail := ih hps []
      rw [bindPositional, List.length_nil, List.drop_zero, List.forall_mem_cons, ← hgiven]
      generalize (if p.kind = .positional then keywords.lookup p.name else none) = given
      cases given with
      | some a => simpa using htail
      | none => cases p.hasDefault with
        | true => simpa using htail
        | false => simp

theorem isSome_bind_iff (h : Declared ps) (absent : α) (args : List α)
    (keywords : List (String × α)) :
    (bind absent ps args keywords).isSome = true ↔
      Fits ps args.length (keywords.map Prod.fst) := by
  have hpos : ∀ p ∈ positionals ps, p.isPositional = true := fun p hp => (mem_positionals.mp hp).2
  have hpositional := isSome_bindPositional_iff absent keywords hpos args
  have hkeywordOnly : (ps.all fun p =>
      p.kind ≠ .keywordOnly || p.hasDefault || (keywords.lookup p.name).isSome) = true ↔
        ∀ p ∈ ps, p.kind = .keywordOnly → p.hasDefault = true ∨ p.IsNamed (keywords.map Prod.fst) := by
    rw [List.all_eq_true]
    refine forall₂_congr fun p _ => ?_
    by_cases hk : p.kind = .keywordOnly
    · simp [hk, isNamed_iff]
    · simp [hk]
  constructor
  · intro hbind
    unfold bind at hbind
    split at hbind
    · next hc =>
      obtain ⟨hadmits, hall⟩ := Bool.and_eq_true_iff.mp hc
      exact ⟨(admits_iff h args keywords).mp hadmits, hpositional.mp hbind, hkeywordOnly.mp hall⟩
    · cases hbind
  · intro hfits
    have hc := Bool.and_eq_true_iff.mpr
      ⟨(admits_iff h args keywords).mpr hfits.toAdmits, hkeywordOnly.mpr hfits.keywordOnly⟩
    rw [bind, if_pos hc]
    exact hpositional.mpr hfits.positional

theorem fits_singleton_iff {name : String} (h : keys.Nodup) :
    Fits [⟨name, .positional, false⟩] n keys ↔ n = 1 ∧ keys = [] ∨ n = 0 ∧ keys = [name] := by
  have hpositionals : positionals [⟨name, .positional, false⟩] = [⟨name, .positional, false⟩] := rfl
  have hnamed : IsNamed keys ⟨name, .positional, false⟩ ↔ name ∈ keys := by simp [isNamed_iff]
  constructor
  · intro hf
    have hknown : ∀ key ∈ keys, key = name := by
      intro key hkey
      rcases hf.known key hkey with ⟨p, hp, hk⟩ | ⟨p, hp, hk⟩
      · rw [List.mem_singleton.mp hp] at hk
        exact (by simpa [takesKeyword] using hk : name = key).symm
      · rw [List.mem_singleton.mp hp] at hk
        cases hk
    have hroom : n ≤ 1 := by simpa [hpositionals] using hf.room
    obtain rfl | rfl : n = 0 ∨ n = 1 := by omega
    · have hmem : name ∈ keys := by simpa [hpositionals, hnamed] using hf.positional
      have hperm : keys.Perm [name] :=
        (List.perm_ext_iff_of_nodup h (List.nodup_singleton name)).mpr fun key =>
          ⟨fun hkey => List.mem_singleton.mpr (hknown key hkey),
            fun hkey => List.mem_singleton.mp hkey ▸ hmem⟩
      exact .inr ⟨rfl, List.perm_singleton.mp hperm⟩
    · have hmem : name ∉ keys := by simpa [hpositionals, hnamed] using hf.free
      refine .inl ⟨rfl, List.eq_nil_iff_forall_not_mem.mpr fun key hkey => ?_⟩
      exact hmem (hknown key hkey ▸ hkey)
  · rintro (⟨rfl, rfl⟩ | ⟨rfl, rfl⟩)
    · exact ⟨⟨by simp [hpositionals], by simp [hpositionals, hnamed], by simp⟩,
        by simp [hpositionals], by simp⟩
    · exact ⟨⟨by simp, by simp, by simp [takesKeyword]⟩, by simp [hpositionals, hnamed], by simp⟩

/-! ## The arity -/

/-- As many arguments as the arity fit by position if and only if no parameter needs a keyword. -/
theorem fits_arity_iff (h : Declared ps) :
    Fits ps (arity ps) [] ↔ ∀ p ∈ ps, p.kind = .keywordOnly → p.hasDefault = true := by
  have hpositionals : positionals ps =
      ps.takeWhile isRequired ++ positionals (ps.dropWhile isRequired) := by
    have hrequired : ∀ p ∈ ps.takeWhile isRequired, p.isPositional = true := by
      intro p hp
      have hrequired : p.isRequired = true := List.mem_takeWhile_imp hp
      exact (Bool.and_eq_true_iff.mp hrequired).1
    conv_lhs => rw [← List.takeWhile_append_dropWhile (p := isRequired) (l := ps)]
    rw [positionals_append, positionals_eq_self hrequired]
  constructor
  · exact fun hf p hp hk => (hf.keywordOnly p hp hk).resolve_right (not_isNamed_nil p)
  · intro hdefaults
    refine ⟨⟨.inl ?_, fun p _ => not_isNamed_nil p, by simp⟩, ?_, ?_⟩
    · rw [hpositionals, List.length_append, arity]
      omega
    · intro p hp
      rw [hpositionals, arity, List.drop_left, mem_positionals] at hp
      obtain ⟨hp, hpos⟩ := hp
      -- The first parameter that is not counted is positional too, and so has a default.
      obtain ⟨q, qs, hq⟩ := List.exists_cons_of_ne_nil (List.ne_nil_of_mem hp)
      have hdeclared : Declared (q :: qs) := hq ▸ h.sublist (List.dropWhile_sublist _)
      have hqrequired : q.isRequired = false := by
        simpa [hq] using List.head?_dropWhile_not isRequired ps
      have hqdefault (hqpos : q.isPositional = true) : q.hasDefault = true := by
        simpa [isRequired, hqpos] using hqrequired
      rw [hq] at hp
      rcases List.mem_cons.mp hp with rfl | hp
      · exact .inl (hqdefault hpos)
      · have hqp := (List.pairwise_cons.mp hdeclared).1 p hp
        exact .inl (hqp.default (hqdefault (hqp.isPositional hpos)) hpos)
    · exact fun p hp hk => .inl (hdefaults p hp hk)

end Parameter

end TypeGuard
