import TypeGuard.Proofs.Callable.Binding

/-! # Fixed arguments

Parameters that were fixed are as good as given: further arguments fit what is left of a list of
parameters if and only if they fit the whole list behind the fixed ones. What is left can be
declared again.
-/

namespace TypeGuard.Parameter

variable {α : Type} {ps : List Parameter} {p : Parameter} {keys : List String} {n m : ℕ}

/-! ## Given parameters -/

/-- The parameters that are left when as many positional ones as possible have been given. -/
def remaining (ps : List Parameter) (n : ℕ) : List Parameter :=
  ps.filter fun p => !((positionals ps).take n).contains p

theorem mem_remaining : p ∈ remaining ps n ↔ p ∈ ps ∧ p ∉ (positionals ps).take n := by
  simp [remaining]

theorem mem_remaining_of_not_isPositional (hp : p.isPositional = false) :
    p ∈ remaining ps n ↔ p ∈ ps := by
  rw [mem_remaining]
  refine and_iff_left fun hgiven => ?_
  have := (mem_positionals.mp (List.mem_of_mem_take hgiven)).2
  exact Bool.false_ne_true (hp.symm.trans this)

theorem Declared.nodup (h : Declared ps) : ps.Nodup := by
  refine h.imp ?_
  rintro p q hpq rfl
  exact hpq.name_ne rfl

theorem filter_not_mem_take {l : List Parameter} (h : l.Nodup) (n : ℕ) :
    l.filter (!(l.take n).contains ·) = l.drop n := by
  have hne : ∀ p ∈ l.take n, ∀ q ∈ l.drop n, p ≠ q := by
    rw [← List.take_append_drop n l] at h
    exact (List.nodup_append.mp h).2.2
  have htake : (l.take n).filter (!(l.take n).contains ·) = [] :=
    List.filter_eq_nil_iff.mpr fun p hp => by simp [hp]
  have hdrop : (l.drop n).filter (!(l.take n).contains ·) = l.drop n :=
    List.filter_eq_self.mpr fun p hp => by simpa using fun hgiven => hne p hgiven p hp rfl
  calc l.filter (!(l.take n).contains ·)
      = (l.take n ++ l.drop n).filter (!(l.take n).contains ·) :=
        congrArg (List.filter _) (List.take_append_drop n l).symm
    _ = l.drop n := by rw [List.filter_append, htake, hdrop, List.nil_append]

theorem Declared.positionals_remaining (h : Declared ps) :
    positionals (remaining ps n) = (positionals ps).drop n := by
  rw [positionals, remaining, List.filter_comm]
  exact filter_not_mem_take (h.nodup.filter _) n

theorem Admits.known_remaining_iff (h : Admits ps n keys) {key : String} (hkey : key ∈ keys) :
    ((∃ p ∈ remaining ps n, p.takesKeyword key = true) ∨
        ∃ p ∈ remaining ps n, p.kind = .keywords) ↔
      (∃ p ∈ ps, p.takesKeyword key = true) ∨ ∃ p ∈ ps, p.kind = .keywords := by
  refine or_congr ?_ ?_
  · refine exists_congr fun p => and_congr_left fun hk => ?_
    rw [mem_remaining]
    exact and_iff_left fun hgiven => h.free p hgiven ⟨key, hkey, hk⟩
  · refine exists_congr fun p => and_congr_left fun hk => mem_remaining_of_not_isPositional ?_
    simp [isPositional, hk]

theorem fits_add_iff (h : Declared ps) (hn : Admits ps n keys) :
    Fits ps (n + m) keys ↔ Fits (remaining ps n) m keys := by
  have hrest : (∃ p ∈ remaining ps n, p.kind = .rest) ↔ ∃ p ∈ ps, p.kind = .rest := by
    refine exists_congr fun p => and_congr_left fun hk => mem_remaining_of_not_isPositional ?_
    simp [isPositional, hk]
  have hpositionals := h.positionals_remaining (n := n)
  constructor
  · intro hf
    refine ⟨⟨?_, ?_, ?_⟩, ?_, ?_⟩
    · rw [hpositionals, hrest, List.length_drop]
      exact hf.room.imp (by omega) id
    · intro p hp
      rw [hpositionals] at hp
      refine hf.free p ?_
      rw [List.take_add]
      exact List.mem_append_right _ hp
    · exact fun key hkey => (hn.known_remaining_iff hkey).mpr (hf.known key hkey)
    · intro p hp
      rw [hpositionals, List.drop_drop] at hp
      exact hf.positional p hp
    · exact fun p hp => hf.keywordOnly p (mem_remaining.mp hp).1
  · intro hf
    refine ⟨⟨?_, ?_, ?_⟩, ?_, ?_⟩
    · have hroom := hf.room
      rw [hpositionals, hrest, List.length_drop] at hroom
      rcases hn.room with hn | hn
      · exact hroom.imp (by omega) id
      · exact .inr hn
    · intro p hp
      rw [List.take_add] at hp
      rcases List.mem_append.mp hp with hp | hp
      · exact hn.free p hp
      · exact hf.free p (hpositionals ▸ hp)
    · exact fun key hkey => (hn.known_remaining_iff hkey).mp (hf.known key hkey)
    · intro p hp
      refine hf.positional p ?_
      rwa [hpositionals, List.drop_drop]
    · intro p hp hk
      refine hf.keywordOnly p ((mem_remaining_of_not_isPositional ?_).mpr hp) hk
      simp [isPositional, hk]

/-! ## Fixed keywords -/

theorem isNamed_iff_keys_contains :
    p.IsNamed keys ↔
      ((p.kind = .positional || p.kind = .keywordOnly) && keys.contains p.name) = true := by
  rw [isNamed_iff]
  simp

@[simp] theorem withFixed_kind (keys : List String) (p : Parameter) :
    (withFixed keys p).kind = p.kind := by
  unfold withFixed
  split <;> rfl

@[simp] theorem withFixed_name (keys : List String) (p : Parameter) :
    (withFixed keys p).name = p.name := by
  unfold withFixed
  split <;> rfl

theorem withFixed_hasDefault_iff :
    (withFixed keys p).hasDefault = true ↔ p.hasDefault = true ∨ p.IsNamed keys := by
  rw [withFixed, isNamed_iff_keys_contains]
  split
  · next hnamed => exact iff_of_true rfl (.inr hnamed)
  · next hnamed => exact (or_iff_left hnamed).symm

theorem withFixed_of_not_isNamed (h : ¬ p.IsNamed keys) : withFixed keys p = p := by
  rw [isNamed_iff_keys_contains] at h
  exact if_neg h

/-- A parameter behind a positional one that a keyword fixes. -/
def behindFixed (keys : List String) (p : Parameter) : Parameter :=
  if p.kind = .positional then { withFixed keys p with kind := .keywordOnly }
  else withFixed keys p

theorem behindFixed_hasDefault_iff :
    (behindFixed keys p).hasDefault = true ↔ p.hasDefault = true ∨ p.IsNamed keys := by
  rw [← withFixed_hasDefault_iff, behindFixed]
  split <;> rfl

/-- Either no keyword fixes a positional parameter, or there is a first one that is fixed. -/
theorem keywordOnlyFrom_cases (keys : List String) (ps : List Parameter) :
    (∀ p ∈ ps, p.isPositional = true → ¬ p.IsNamed keys) ∧
        keywordOnlyFrom keys ps = ps.map (withFixed keys) ∨
      ∃ before p after, ps = before ++ p :: after ∧
        (∀ q ∈ before, q.isPositional = true → ¬ q.IsNamed keys) ∧
        p.kind = .positional ∧ p.IsNamed keys ∧
        keywordOnlyFrom keys ps = before.map (withFixed keys) ++
          ((p :: after).filter (·.kind ≠ .rest)).map (behindFixed keys) := by
  induction ps with
  | nil => exact .inl ⟨by simp, rfl⟩
  | cons p ps ih =>
    by_cases hfixed : (p.kind = .positional && keys.contains p.name) = true
    · right
      have hkind : p.kind = .positional ∧ p.name ∈ keys := by simpa using hfixed
      refine ⟨[], p, ps, rfl, by simp, hkind.1, isNamed_iff.mpr ⟨.inl hkind.1, hkind.2⟩, ?_⟩
      rw [keywordOnlyFrom, if_pos hfixed]
      rfl
    · have hp : p.isPositional = true → ¬ p.IsNamed keys := by
        intro hpos hnamed
        obtain ⟨hkind, hname⟩ := isNamed_iff.mp hnamed
        rcases hkind with hkind | hkind
        · exact hfixed (by simp [hkind, hname])
        · simp [isPositional, hkind] at hpos
      rw [keywordOnlyFrom, if_neg hfixed]
      rcases ih with ⟨hps, heq⟩ | ⟨before, q, after, rfl, hbefore, hkind, hnamed, heq⟩
      · exact .inl ⟨List.forall_mem_cons.mpr ⟨hp, hps⟩, congrArg _ heq⟩
      · exact .inr ⟨p :: before, q, after, rfl, List.forall_mem_cons.mpr ⟨hp, hbefore⟩, hkind,
          hnamed, congrArg _ heq⟩

theorem behindFixed_kind (keys : List String) (p : Parameter) :
    (behindFixed keys p).kind = if p.kind = .positional then .keywordOnly else p.kind := by
  unfold behindFixed
  split
  · rfl
  · exact withFixed_kind keys p

theorem behindFixed_name (keys : List String) (p : Parameter) :
    (behindFixed keys p).name = p.name := by
  unfold behindFixed
  split <;> exact withFixed_name keys p

section Split

variable {before after : List Parameter} (h : Declared (before ++ p :: after))
  (hp : p.kind = .positional)

include h hp

theorem isPositional_of_mem_before : ∀ q ∈ before, q.isPositional = true := by
  intro q hq
  have hle := ((List.pairwise_append.mp h).2.2 q hq p List.mem_cons_self).rank_le
  rw [hp] at hle
  exact isPositional_iff.mpr hle

theorem kind_of_mem_after : ∀ q ∈ p :: after, q.kind ≠ .positionalOnly := by
  intro q hq hk
  have htail := List.pairwise_cons.mp (List.pairwise_append.mp h).2.1
  rcases List.mem_cons.mp hq with rfl | hq
  · rw [hp] at hk
    cases hk
  · have hle := (htail.1 q hq).rank_le
    rw [hp, hk] at hle
    exact absurd hle (by decide)

theorem map_withFixed_before (hbefore : ∀ q ∈ before, q.isPositional = true → ¬ q.IsNamed keys) :
    before.map (withFixed keys) = before := by
  have hpos := isPositional_of_mem_before h hp
  exact (List.map_congr_left fun q hq =>
    withFixed_of_not_isNamed (hbefore q hq (hpos q hq))).trans (List.map_id _)

end Split

theorem behindFixed_isPositional (keys : List String) (h : p.kind ≠ .positionalOnly) :
    (behindFixed keys p).isPositional = false := by
  rw [isPositional, behindFixed_kind]
  split
  · rfl
  · next hk => simp [h, hk]

theorem fits_map_withFixed_iff (hfree : ∀ p ∈ ps, p.isPositional = true → ¬ p.IsNamed keys)
    (hknown : ∀ key ∈ keys, (∃ p ∈ ps, p.takesKeyword key = true) ∨ ∃ p ∈ ps, p.kind = .keywords) :
    Fits (ps.map (withFixed keys)) m [] ↔ Fits ps m keys := by
  have hself : ∀ p ∈ positionals ps, ¬ p.IsNamed keys := fun p hp =>
    hfree p (mem_positionals.mp hp).1 (mem_positionals.mp hp).2
  have hpositionals : positionals (ps.map (withFixed keys)) = positionals ps := by
    have hcomp : isPositional ∘ withFixed keys = isPositional :=
      funext fun p => by simp [isPositional]
    rw [positionals, List.filter_map, hcomp]
    exact (List.map_congr_left fun p hp => withFixed_of_not_isNamed (hself p hp)).trans
      (List.map_id _)
  constructor
  · intro hf
    refine ⟨⟨?_, fun p hp => hself p (List.mem_of_mem_take hp), hknown⟩, ?_, ?_⟩
    · have hroom := hf.room
      rw [hpositionals] at hroom
      simpa using hroom
    · intro p hp
      rw [← hpositionals] at hp
      exact (hf.positional p hp).imp_right fun hnamed => (not_isNamed_nil p hnamed).elim
    · intro p hp hk
      rw [← withFixed_hasDefault_iff]
      have hf := hf.keywordOnly _ (List.mem_map_of_mem hp) (by rwa [withFixed_kind])
      exact hf.resolve_right (not_isNamed_nil _)
  · intro hf
    refine ⟨⟨?_, fun p _ => not_isNamed_nil p, by simp⟩, ?_, ?_⟩
    · rw [hpositionals]
      simpa using hf.room
    · intro p hp
      rw [hpositionals] at hp
      exact .inl ((hf.positional p hp).resolve_right (hself p (List.mem_of_mem_drop hp)))
    · intro q hq hk
      obtain ⟨p, hp, rfl⟩ := List.mem_map.mp hq
      rw [withFixed_kind] at hk
      exact .inl (withFixed_hasDefault_iff.mpr (hf.keywordOnly p hp hk))

theorem behindFixed_kind_eq_keywordOnly_iff :
    (behindFixed keys p).kind = .keywordOnly ↔ p.kind = .positional ∨ p.kind = .keywordOnly := by
  rw [behindFixed_kind]
  split
  · next hk => simp [hk]
  · next hk => simp [hk]

theorem forall_behindFixed_iff :
    (∀ q ∈ (ps.filter (·.kind ≠ .rest)).map (behindFixed keys),
        q.kind = .keywordOnly → q.hasDefault = true) ↔
      ∀ p ∈ ps, p.kind = .positional ∨ p.kind = .keywordOnly →
        p.hasDefault = true ∨ p.IsNamed keys := by
  rw [List.forall_mem_map, List.forall_mem_filter]
  refine forall₂_congr fun p _ => ?_
  rw [behindFixed_kind_eq_keywordOnly_iff, behindFixed_hasDefault_iff]
  constructor
  · intro h hk
    exact h (by rcases hk with hk | hk <;> simp [hk]) hk
  · exact fun h _ => h

theorem fits_behindFixed_iff {before after : List Parameter}
    (h : Declared (before ++ p :: after)) (hp : p.kind = .positional) (hnamed : p.IsNamed keys)
    (hbefore : ∀ q ∈ before, ¬ q.IsNamed keys)
    (hknown : ∀ key ∈ keys, (∃ q ∈ before ++ p :: after, q.takesKeyword key = true) ∨
      ∃ q ∈ before ++ p :: after, q.kind = .keywords) :
    Fits (before ++ ((p :: after).filter (·.kind ≠ .rest)).map (behindFixed keys)) m [] ↔
      Fits (before ++ p :: after) m keys := by
  have hpos := isPositional_of_mem_before h hp
  have hlater := kind_of_mem_after h hp
  have hbehind : ∀ q ∈ ((p :: after).filter (·.kind ≠ .rest)).map (behindFixed keys),
      q.isPositional = false ∧ q.kind ≠ .rest := by
    rw [List.forall_mem_map, List.forall_mem_filter]
    intro q hq hrest
    refine ⟨behindFixed_isPositional keys (hlater q hq), ?_⟩
    rw [behindFixed_kind]
    split
    · simp
    · simpa using hrest
  have hpositionals : positionals
      (before ++ ((p :: after).filter (·.kind ≠ .rest)).map (behindFixed keys)) = before := by
    rw [positionals_append, positionals_eq_self hpos,
      positionals_eq_nil fun q hq => (hbehind q hq).1, List.append_nil]
  have hpositionals' : positionals (before ++ p :: after) = before ++ positionals (p :: after) := by
    rw [positionals_append, positionals_eq_self hpos]
  constructor
  · intro hf
    have hm : m ≤ before.length := by
      have hroom := hf.room
      rw [hpositionals] at hroom
      refine hroom.resolve_right ?_
      rintro ⟨q, hq, hk⟩
      rcases List.mem_append.mp hq with hq | hq
      · have := hpos q hq
        simp [isPositional, hk] at this
      · exact (hbehind q hq).2 hk
    have hall := forall_behindFixed_iff.mp fun q hq hk =>
      (hf.keywordOnly q (List.mem_append_right _ hq) hk).resolve_right (not_isNamed_nil q)
    refine ⟨⟨.inl ?_, ?_, hknown⟩, ?_, ?_⟩
    · rw [hpositionals', List.length_append]
      omega
    · intro q hq
      rw [hpositionals', List.take_append_of_le_length hm] at hq
      exact hbefore q (List.mem_of_mem_take hq)
    · intro q hq
      rw [hpositionals', List.drop_append_of_le_length hm] at hq
      rcases List.mem_append.mp hq with hq | hq
      · rw [← hpositionals] at hq
        exact (hf.positional q hq).imp_right fun hnamed => (not_isNamed_nil q hnamed).elim
      · obtain ⟨hq, hqpos⟩ := mem_positionals.mp hq
        have hkind : q.kind = .positionalOnly ∨ q.kind = .positional := by
          simpa [isPositional] using hqpos
        exact hall q hq (.inl (hkind.resolve_left (hlater q hq)))
    · intro q hq hk
      rcases List.mem_append.mp hq with hq | hq
      · have := hpos q hq
        simp [isPositional, hk] at this
      · exact hall q hq (.inr hk)
  · intro hf
    have hm : m ≤ before.length := by
      by_contra hlt
      refine hf.free p ?_ hnamed
      obtain ⟨k, hk⟩ : ∃ k, m - before.length = k + 1 := Nat.exists_eq_add_one.mpr (by omega)
      have hhead : positionals (p :: after) = p :: positionals after :=
        List.filter_cons_of_pos (by simp [isPositional, hp])
      rw [hpositionals', List.take_append, hk, hhead, List.take_succ_cons]
      exact List.mem_append_right _ List.mem_cons_self
    refine ⟨⟨.inl ?_, fun q _ => not_isNamed_nil q, by simp⟩, ?_, ?_⟩
    · rwa [hpositionals]
    · intro q hq
      rw [hpositionals] at hq
      refine .inl ((hf.positional q ?_).resolve_right (hbefore q (List.mem_of_mem_drop hq)))
      rw [hpositionals', List.drop_append_of_le_length hm]
      exact List.mem_append_left _ hq
    · intro q hq hk
      rcases List.mem_append.mp hq with hq | hq
      · have := hpos q hq
        simp [isPositional, hk] at this
      · refine .inl (forall_behindFixed_iff.mpr ?_ q hq hk)
        rintro r hr (hkind | hkind)
        · refine hf.positional r ?_
          rw [hpositionals', List.drop_append_of_le_length hm]
          exact List.mem_append_right _ (mem_positionals.mpr ⟨hr, by simp [isPositional, hkind]⟩)
        · exact hf.keywordOnly r (List.mem_append_right _ hr) hkind

/-- A fixed keyword is as good as a given one: arguments fit by position what a list becomes when
keywords are fixed if and only if they fit the list together with the keywords. -/
theorem fits_keywordOnlyFrom_iff (h : Declared ps)
    (hknown : ∀ key ∈ keys, (∃ p ∈ ps, p.takesKeyword key = true) ∨ ∃ p ∈ ps, p.kind = .keywords) :
    Fits (keywordOnlyFrom keys ps) m [] ↔ Fits ps m keys := by
  rcases keywordOnlyFrom_cases keys ps with
    ⟨hfree, heq⟩ | ⟨before, p, after, rfl, hbefore, hkind, hnamed, heq⟩
  · rw [heq]
    exact fits_map_withFixed_iff hfree hknown
  · have hfree : ∀ q ∈ before, ¬ q.IsNamed keys := fun q hq =>
      hbefore q hq (isPositional_of_mem_before h hkind q hq)
    rw [heq, map_withFixed_before h hkind hbefore]
    exact fits_behindFixed_iff h hkind hnamed hfree hknown

/-! ## What is left is declared -/

theorem Declared.map_withFixed (h : Declared ps)
    (hfree : ∀ p ∈ ps, p.isPositional = true → ¬ p.IsNamed keys) :
    Declared (ps.map (withFixed keys)) := by
  refine List.pairwise_map.mpr (h.imp_of_mem ?_)
  intro p q hp hq hpq
  refine ⟨by simpa using hpq.name_ne, by simpa using hpq.rank_le, fun hdefault hpositional => ?_⟩
  have hqpos : q.isPositional = true := by simpa [isPositional] using hpositional
  rw [withFixed_of_not_isNamed (hfree p hp (hpq.isPositional hqpos))] at hdefault
  exact withFixed_hasDefault_iff.mpr (.inl (hpq.default hdefault hqpos))

theorem rank_behindFixed_mono {q r : Parameter} (keys : List String) (hr : r.kind ≠ .rest)
    (h : q.kind.rank ≤ r.kind.rank) :
    (behindFixed keys q).kind.rank ≤ (behindFixed keys r).kind.rank := by
  rw [behindFixed_kind, behindFixed_kind]
  generalize q.kind = k at h ⊢
  generalize r.kind = k' at h hr ⊢
  cases k <;> cases k' <;> simp_all [ParameterKind.rank]

theorem Declared.behindFixed {before after : List Parameter}
    (h : Declared (before ++ p :: after)) (hp : p.kind = .positional) (keys : List String) :
    Declared (before ++ ((p :: after).filter (·.kind ≠ .rest)).map (behindFixed keys)) := by
  have hlater := kind_of_mem_after h hp
  obtain ⟨hbefore, hafter, hcross⟩ := List.pairwise_append.mp h
  refine List.pairwise_append.mpr ⟨hbefore, ?_, ?_⟩
  · refine List.pairwise_map.mpr ((hafter.filter _).imp_of_mem ?_)
    intro q r _ hr hqr
    obtain ⟨hr, hrest⟩ := List.mem_filter.mp hr
    refine ⟨?_, rank_behindFixed_mono keys (by simpa using hrest) hqr.rank_le, fun _ hpositional => ?_⟩
    · rw [behindFixed_name, behindFixed_name]
      exact hqr.name_ne
    · rw [behindFixed_isPositional keys (hlater r hr)] at hpositional
      cases hpositional
  · intro q hq r' hr'
    obtain ⟨r, hr, rfl⟩ := List.mem_map.mp hr'
    have hr := (List.mem_filter.mp hr).1
    have hqr := hcross q hq r hr
    refine ⟨?_, ?_, fun _ hpositional => ?_⟩
    · rw [behindFixed_name]
      exact hqr.name_ne
    · refine hqr.rank_le.trans ?_
      rw [behindFixed_kind]
      split
      · next hk => simp [hk, ParameterKind.rank]
      · exact le_rfl
    · rw [behindFixed_isPositional keys (hlater r hr)] at hpositional
      cases hpositional

theorem Declared.keywordOnlyFrom (h : Declared ps) (keys : List String) :
    Declared (keywordOnlyFrom keys ps) := by
  rcases keywordOnlyFrom_cases keys ps with
    ⟨hfree, heq⟩ | ⟨before, p, after, rfl, hbefore, hkind, hnamed, heq⟩
  · rw [heq]
    exact h.map_withFixed hfree
  · rw [heq, map_withFixed_before h hkind hbefore]
    exact h.behindFixed hkind keys

/-- What is left when arguments and keywords are fixed is declared, and further arguments fit it if
and only if they fit the whole list behind the fixed ones. -/
theorem fix_eq_some {left : List Parameter} {fixed : List α} {keywords : List (String × α)}
    (h : Declared ps) (hfix : fix ps fixed keywords = some left) :
    Declared left ∧
      ∀ m, Fits left m [] ↔ Fits ps (fixed.length + m) (keywords.map Prod.fst) := by
  obtain ⟨hc, rfl⟩ : _ ∧ keywordOnlyFrom (keywords.map Prod.fst) (remaining ps fixed.length) = left :=
    Option.ite_none_right_eq_some.mp hfix |>.imp_right Option.some.inj
  have hadmits := (admits_iff h fixed keywords).mp (Bool.and_eq_true_iff.mp hc).1
  have hremaining : Declared (remaining ps fixed.length) := h.filter _
  have hknown : ∀ key ∈ keywords.map Prod.fst, _ := fun key hkey =>
    (hadmits.known_remaining_iff hkey).mpr (hadmits.known key hkey)
  refine ⟨hremaining.keywordOnlyFrom _, fun m => ?_⟩
  rw [fits_add_iff h hadmits]
  exact fits_keywordOnlyFrom_iff hremaining hknown

end TypeGuard.Parameter
