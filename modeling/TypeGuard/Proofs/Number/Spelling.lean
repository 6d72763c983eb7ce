import TypeGuard.Proofs.Grammar.Lexeme

/-! # Spellings of numerals

The decimal notation of a numeral, part by part. Scanning a text finds the longest spelling at its
head, which is the whole of one that no digit, point or letter `e` goes on after.
-/

namespace TypeGuard.Numeral

open Text

def IsDigits (ds : List Char) : Prop :=
  ds ≠ [] ∧ ∀ d ∈ ds, d.isDigit = true

/-- The digits before the point: a zero, or digits that begin with another one. -/
inductive Whole : List Char → Prop
  | zero : Whole ['0']
  | positive {d ds} : d ≠ '0' → (∀ c ∈ d :: ds, c.isDigit = true) → Whole (d :: ds)

inductive Fraction : List Char → List Char → Prop
  | absent : Fraction [] []
  | point {ds} : IsDigits ds → Fraction ds ('.' :: ds)

inductive Sign : Bool → List Char → Prop
  | absent : Sign false []
  | plus : Sign false ['+']
  | minus : Sign true ['-']

inductive Exponent : Option Int → List Char → Prop
  | absent : Exponent none []
  | written {letter negative sign ds} : letter = 'e' ∨ letter = 'E' → Sign negative sign →
      IsDigits ds →
      Exponent (some (if negative then -(natOfDigits ds : Int) else natOfDigits ds))
        (letter :: (sign ++ ds))

def minusSign (negative : Bool) : List Char :=
  if negative then ['-'] else []

inductive Spelling : Numeral → List Char → Prop
  | mk {negative whole fraction exponent f e} : Whole whole → Fraction fraction f →
      Exponent exponent e →
      Spelling ⟨negative, whole, fraction, exponent⟩ (minusSign negative ++ (whole ++ (f ++ e)))

/-- The literal that a numeral denotes: an integer unless it has a fraction or an exponent. -/
def literal (n : Numeral) : Literal :=
  if n.isInteger then .int n.toInt else .float n.toBinary64

def Break (rest : List Char) : Prop :=
  ∀ c ∈ rest.head?, c.isDigit = false ∧ c ≠ '.' ∧ c ≠ 'e' ∧ c ≠ 'E'

theorem Break.notDigit {rest : List Char} (h : Break rest) :
    ∀ c ∈ rest.head?, c.isDigit = false := fun c hc => (h c hc).1

theorem Spelling.head {n : Numeral} {w : List Char} (h : Spelling n w) :
    ∃ c w', w = c :: w' ∧ (c = '-' ∨ c.isDigit = true) := by
  obtain @⟨negative, whole, _, _, f, e, hw, -, -⟩ := h
  cases negative with
  | true => exact ⟨'-', _, rfl, .inl rfl⟩
  | false =>
    cases hw with
    | zero => exact ⟨'0', _, rfl, .inr rfl⟩
    | @positive d ds _ hall => exact ⟨d, _, rfl, .inr (hall d List.mem_cons_self)⟩

theorem Spelling.char {n : Numeral} {w : List Char} (h : Spelling n w) :
    ∀ c ∈ w, c.isDigit = true ∨ c ∈ ['-', '+', '.', 'e', 'E'] := by
  obtain @⟨negative, whole, fraction, exponent, f, e, hw, hf, he⟩ := h
  simp only [List.forall_mem_append]
  refine ⟨?_, ?_, ?_, ?_⟩
  · cases negative <;> simp [minusSign]
  · cases hw with
    | zero => exact fun c hc => .inl (by rw [List.mem_singleton.mp hc]; rfl)
    | positive _ hall => exact fun c hc => .inl (hall c hc)
  · cases hf with
    | absent => exact fun _ hc => absurd hc List.not_mem_nil
    | point h => exact List.forall_mem_cons.mpr ⟨.inr (by decide), fun c hc => .inl (h.2 c hc)⟩
  · cases he with
    | absent => exact fun _ hc => absurd hc List.not_mem_nil
    | written hletter hsign h =>
      refine List.forall_mem_cons.mpr ⟨?_, List.forall_mem_append.mpr
        ⟨?_, fun c hc => .inl (h.2 c hc)⟩⟩
      · rcases hletter with rfl | rfl <;> decide
      · cases hsign <;> simp

/-! ## Scanning finds spellings -/

theorem scanWhole_sound {cs ds rest : List Char} (h : scanWhole cs = some (ds, rest)) :
    Whole ds ∧ cs = ds ++ rest := by
  cases cs with
  | nil => simp [scanWhole] at h
  | cons c cs =>
    simp only [scanWhole] at h
    split_ifs at h with hz hd
    · simp only [Option.some.injEq, Prod.mk.injEq] at h
      obtain ⟨rfl, rfl⟩ := h
      exact ⟨.zero, by simp [hz]⟩
    · simp only [Option.some.injEq, Prod.mk.injEq] at h
      obtain ⟨rfl, rfl⟩ := h
      refine ⟨.positive hz ?_, by simp [List.takeWhile_append_dropWhile]⟩
      exact List.forall_mem_cons.mpr ⟨hd, fun d hd => List.mem_takeWhile_imp hd⟩

theorem scanFraction_sound (cs : List Char) :
    ∃ f, Fraction (scanFraction cs).1 f ∧ cs = f ++ (scanFraction cs).2 := by
  unfold scanFraction
  split
  · next cs =>
    simp only
    split_ifs with hd
    · exact ⟨[], .absent, rfl⟩
    · refine ⟨_, .point ⟨by simpa using hd, fun d hd => List.mem_takeWhile_imp hd⟩, ?_⟩
      simp [List.takeWhile_append_dropWhile]
  · exact ⟨[], .absent, rfl⟩

theorem scanSign_sound (cs : List Char) :
    ∃ s, Sign (scanSign cs).1 s ∧ cs = s ++ (scanSign cs).2 := by
  unfold scanSign
  split
  · exact ⟨_, .minus, rfl⟩
  · exact ⟨_, .plus, rfl⟩
  · exact ⟨_, .absent, rfl⟩

theorem scanExponent_sound (cs : List Char) :
    ∃ e, Exponent (scanExponent cs).1 e ∧ cs = e ++ (scanExponent cs).2 := by
  cases cs with
  | nil => exact ⟨[], .absent, rfl⟩
  | cons c cs =>
    by_cases hc : c = 'e' ∨ c = 'E'
    · have hc' : (decide (c = 'e') || decide (c = 'E')) = true := by simpa using hc
      by_cases hd : (scanSign cs).2.takeWhile Char.isDigit = []
      · exact ⟨[], by simp [scanExponent, hc', hd, Exponent.absent]⟩
      · obtain ⟨s, hs, hcs⟩ := scanSign_sound cs
        have hw := Exponent.written hc hs ⟨hd, fun d hd => List.mem_takeWhile_imp hd⟩
        refine ⟨_, by simpa [scanExponent, hc', hd] using hw, ?_⟩
        simp only [scanExponent, hc', List.isEmpty_iff, hd, if_true, if_false]
        rw [List.cons_append, List.append_assoc, List.takeWhile_append_dropWhile, ← hcs]
    · have hc' : (decide (c = 'e') || decide (c = 'E')) = false := by simpa using hc
      exact ⟨[], by simp [scanExponent, hc', Exponent.absent]⟩

def scanUnsigned (negative : Bool) (cs : List Char) : Option (Numeral × List Char) :=
  match scanWhole cs with
  | none => none
  | some (whole, rest) =>
    let (fraction, rest) := scanFraction rest
    let (exponent, rest) := scanExponent rest
    some (⟨negative, whole, fraction, exponent⟩, rest)

theorem scan_of_no_minus {cs : List Char} (h : ∀ r, cs ≠ '-' :: r) :
    scan cs = scanUnsigned false cs := by
  cases cs with
  | nil => rfl
  | cons c cs => cases hw : scanWhole (c :: cs) <;> simp [scan, scanUnsigned, hw]

theorem scanUnsigned_sound {negative : Bool} {cs rest : List Char} {n : Numeral}
    (h : scanUnsigned negative cs = some (n, rest)) :
    ∃ w, Spelling n w ∧ minusSign negative ++ cs = w ++ rest := by
  unfold scanUnsigned at h
  split at h
  · simp at h
  · next whole r hw =>
    obtain ⟨hwhole, rfl⟩ := scanWhole_sound hw
    obtain ⟨f, hf, hr⟩ := scanFraction_sound r
    obtain ⟨e, he, hr'⟩ := scanExponent_sound (scanFraction r).2
    simp only [Option.some.injEq, Prod.mk.injEq] at h
    obtain ⟨rfl, rfl⟩ := h
    refine ⟨_, .mk hwhole hf he, ?_⟩
    rw [List.append_assoc, List.append_assoc, List.append_assoc, ← hr', ← hr]

theorem scan_sound {cs rest : List Char} {n : Numeral} (h : scan cs = some (n, rest)) :
    ∃ w, Spelling n w ∧ cs = w ++ rest := by
  by_cases hm : ∃ r, cs = '-' :: r
  · obtain ⟨r, rfl⟩ := hm
    obtain ⟨w, hw, hr⟩ := scanUnsigned_sound h
    exact ⟨w, hw, hr⟩
  · rw [scan_of_no_minus (not_exists.mp hm)] at h
    exact scanUnsigned_sound h

/-! ## Spellings are scanned -/

theorem scanWhole_complete {ds rest : List Char} (h : Whole ds)
    (hr : ∀ c ∈ rest.head?, c.isDigit = false) : scanWhole (ds ++ rest) = some (ds, rest) := by
  cases h with
  | zero => rfl
  | positive hz hall =>
    obtain ⟨hd, hds⟩ := List.forall_mem_cons.mp hall
    simp [scanWhole, hz, hd, takeWhile_run hds hr, dropWhile_run hds hr]

theorem scanFraction_complete {ds f rest : List Char} (h : Fraction ds f)
    (hr : ∀ c ∈ rest.head?, c.isDigit = false ∧ c ≠ '.') :
    scanFraction (f ++ rest) = (ds, rest) := by
  have hd : ∀ c ∈ rest.head?, c.isDigit = false := fun c hc => (hr c hc).1
  cases h with
  | absent =>
    cases rest with
    | nil => rfl
    | cons c cs =>
      have hne : c ≠ '.' := (hr c rfl).2
      simp [scanFraction, hne]
  | point h => simp [scanFraction, takeWhile_run h.2 hd, dropWhile_run h.2 hd, h.1]

theorem scanSign_complete {negative : Bool} {s ds : List Char} (h : Sign negative s)
    (hd : IsDigits ds) (rest : List Char) :
    scanSign (s ++ (ds ++ rest)) = (negative, ds ++ rest) := by
  cases h with
  | plus => rfl
  | minus => rfl
  | absent =>
    obtain ⟨d, ds, rfl⟩ := List.exists_cons_of_ne_nil hd.1
    have hdigit : d.isDigit = true := hd.2 d (by simp)
    have hm : d ≠ '-' := by rintro rfl; simp at hdigit
    have hp : d ≠ '+' := by rintro rfl; simp at hdigit
    simp [scanSign, hm, hp]

theorem scanExponent_complete {exponent : Option Int} {e rest : List Char}
    (h : Exponent exponent e) (hr : Break rest) :
    scanExponent (e ++ rest) = (exponent, rest) := by
  cases h with
  | absent =>
    cases rest with
    | nil => rfl
    | cons c cs =>
      obtain ⟨-, -, h₁, h₂⟩ := hr c rfl
      simp [scanExponent, h₁, h₂]
  | @written letter _ _ _ hl hs hd =>
    have hl' : (decide (letter = 'e') || decide (letter = 'E')) = true := by simpa using hl
    simp only [scanExponent, List.cons_append, List.append_assoc, hl', if_true,
      scanSign_complete hs hd, takeWhile_run hd.2 hr.notDigit, dropWhile_run hd.2 hr.notDigit,
      List.isEmpty_iff, hd.1, if_false]

theorem head_fraction {ds f exponent e rest} (hf : Fraction ds f) (he : Exponent exponent e)
    (hr : Break rest) : ∀ c ∈ (f ++ (e ++ rest)).head?, c.isDigit = false := by
  intro c hc
  cases hf with
  | point h => simp at hc; subst hc; decide
  | absent =>
    cases he with
    | absent => exact hr.notDigit c hc
    | written hl => simp at hc; subst hc; rcases hl with rfl | rfl <;> decide

theorem head_exponent {exponent e rest} (he : Exponent exponent e) (hr : Break rest) :
    ∀ c ∈ (e ++ rest).head?, c.isDigit = false ∧ c ≠ '.' := by
  intro c hc
  cases he with
  | absent => exact ⟨hr.notDigit c hc, (hr c hc).2.1⟩
  | written hl => simp at hc; subst hc; rcases hl with rfl | rfl <;> decide

theorem Whole.ne_minus {ds : List Char} (h : Whole ds) (rest r : List Char) :
    ds ++ rest ≠ '-' :: r := by
  intro he
  cases h with
  | zero => simp at he
  | positive _ hall =>
    obtain ⟨rfl, -⟩ := List.cons.inj he
    simpa using hall '-' (by simp)

theorem scan_complete {n : Numeral} {w rest : List Char} (h : Spelling n w) (hr : Break rest) :
    scan (w ++ rest) = some (n, rest) := by
  cases h with
  | @mk negative whole fraction exponent f e hw hf he =>
    have hwhole := scanWhole_complete hw (head_fraction hf he hr)
    have hfraction := scanFraction_complete hf (head_exponent he hr)
    have hexponent := scanExponent_complete he hr
    have hscan : scanUnsigned negative (whole ++ (f ++ (e ++ rest))) =
        some (⟨negative, whole, fraction, exponent⟩, rest) := by
      simp [scanUnsigned, hwhole, hfraction, hexponent]
    simp only [List.append_assoc]
    cases negative with
    | true => exact hscan
    | false => rwa [minusSign, if_neg (by simp), List.nil_append, scan_of_no_minus (hw.ne_minus _)]

end TypeGuard.Numeral
