import TypeGuard.CommandLine.Report
import TypeGuard.Proofs.Check.Offence
import TypeGuard.Proofs.Grammar.Recognition
import TypeGuard.Proofs.Template.Resolution

/-! # Modes

An expression may be shown as a tree, shown as a signature, or be what values are checked against.
The last two refuse the names kept for placeholders before they parse the expression; the tree is
shown without asking.
-/

namespace TypeGuard

open Text

/-! ## Expressions without embedded values -/

/-- The text holds the beginning of the names that are kept for placeholders. -/
def IsReserved (text : String) : Prop :=
  placeholderPrefix.toList <:+: text.toList

section Text

variable {text : String} {display : Value → String} {w : World}

theorem splice_text (index : ℕ) (text : String) :
    splice index [.str text] = .ok (text.toList, text.toList, []) := by
  have hnone : splice index [] = .ok ([], [], []) := rfl
  rw [splice, show (Value.str text).text? = some text from rfl, hnone]
  change Except.ok (text.toList ++ [], text.toList ++ [], []) = _
  rw [List.append_nil]

theorem resolveTemplate_of_isReserved (h : IsReserved text) :
    resolveTemplate display [.str text] [] = .error .reservedPrefix := by
  rw [resolveTemplate, namedReferences, splice_text]
  exact if_pos (occursIn_iff.mpr h)

theorem resolveTemplate_of_not_isReserved (h : ¬ IsReserved text) :
    resolveTemplate display [.str text] [] = .ok ⟨text.toList, []⟩ := by
  rw [resolveTemplate, namedReferences, splice_text]
  exact if_neg (mt occursIn_iff.mp h)

theorem parseTemplate_of_isReserved (h : IsReserved text) :
    parseTemplate w [.str text] [] = .error (.definition .reservedPrefix) := by
  rw [parseTemplate, resolveTemplate_of_isReserved h]
  rfl

theorem parseTemplate_of_not_isReserved (h : ¬ IsReserved text) :
    parseTemplate w [.str text] [] =
      (do return (← (TypeExpr.parse text).mapError Error.grammar, [])) := by
  rw [parseTemplate, resolveTemplate_of_not_isReserved h]
  simp only [Except.mapError, bind, Except.bind, String.ofList_toList]
  rfl

end Text

inductive IsCompileError : Error → Prop
  | definition {d} : d ≠ .reservedPrefix → IsCompileError (.definition d)
  | misuse : IsCompileError .misuse

theorem TypeExpr.ne_reservedPrefix_of_compile {ρ : Type} {env : Environment ρ} {t : TypeExpr}
    {d : DefinitionError} (h : t.compile env = .error d) : d ≠ .reservedPrefix := by
  rw [← failure?_eq_some_iff, failure?_compile] at h
  obtain ⟨u, -, hu⟩ := List.exists_of_findSome?_eq_some h
  cases offence?_eq_some_iff.mp hu <;> nofun

theorem Predicate.isCompileError {ρ : Type} {t : TypeExpr} {e : Error}
    (h : Predicate.compile ([] : Environment ρ) t = .error e) : IsCompileError e := by
  obtain ⟨d, hd, rfl⟩ := (Predicate.compile_eq_error_iff Environment.hasTexts_nil).mp h
  exact .definition (TypeExpr.ne_reservedPrefix_of_compile hd)

theorem Signature.isCompileError {ρ : Type} {t : TypeExpr} {e : Error}
    (h : Signature.compile ([] : Environment ρ) t = .error e) : IsCompileError e := by
  rcases bind_eq_error_iff.mp h with h | ⟨⟨params, result⟩, -, h⟩
  · rw [Signature.parts] at h
    cases hparts : Signature.parts? t <;> rw [hparts] at h <;> cases h
    exact .definition nofun
  rcases bind_eq_error_iff.mp h with h | ⟨ps, -, h⟩
  · obtain ⟨t, -, ht⟩ := exists_of_mapM_eq_error h
    exact Predicate.isCompileError ht
  rcases bind_eq_error_iff.mp h with h | ⟨r, -, h⟩
  · exact Predicate.isCompileError h
  rcases bind_eq_error_iff.mp h with h | ⟨text, -, h⟩
  · rcases bind_eq_error_iff.mp h with h | ⟨texts, -, h⟩
    · obtain ⟨p, -, hp⟩ := exists_of_mapM_eq_error h
      cases hdescription : p.description <;> rw [hdescription] at hp <;> cases hp
      exact .misuse
    · cases h
  · cases h

theorem IsCompileError.ne_grammar {e : Error} (h : IsCompileError e) (g : GrammarError) :
    e ≠ .grammar g := by
  cases h <;> intro heq <;> cases heq

theorem head?_toList_append {s : String} {c : Char} (h : s.toList.head? = some c) (t : String) :
    (s ++ t).toList.head? = some c := by
  rw [String.toList_append, List.head?_append, h]
  rfl

/-- The message about the names kept for placeholders is the only one that begins with this letter.
-/
theorem IsCompileError.exists_head?_message {e : Error} (h : IsCompileError e) :
    ∃ c ≠ 'I', e.message.toList.head? = some c := by
  have hsecond {s : String} {c : Char} (h : s.toList.head? = some c) (t u : String) :=
    head?_toList_append (head?_toList_append h t) u
  cases h with
  | @definition d hd =>
    cases d with
    | reservedPrefix => exact absurd rfl hd
    | optionalField => exact ⟨'O', by decide, hsecond rfl _ _⟩
    | unsupportedType => exact ⟨'U', by decide, head?_toList_append rfl _⟩
    | notASignature => exact ⟨'E', by decide, head?_toList_append rfl _⟩
    | badName => exact ⟨'R', by decide, hsecond rfl _ _⟩
    | badEmbedding => exact ⟨'E', by decide, hsecond (head?_toList_append rfl _) _ _⟩
    | badReference => exact ⟨'R', by decide, hsecond (head?_toList_append rfl _) _ _⟩
  | misuse => exact ⟨'U', by decide, rfl⟩

namespace CommandLine

/-! ## Refusals -/

/-- The report is not that of an expression that was refused before it was compiled. -/
def Report.GetsPast (r : Report) (text : String) : Prop :=
  (∀ e, r ≠ .refusal text (.grammar e)) ∧ r ≠ .refusal text (.definition .reservedPrefix)

section Refusal

variable {text : String} {e : Error} {r : Report}

theorem output_refusal_grammar (e : GrammarError) :
    (Report.refusal text (.grammar e)).output =
      "Grammar error in '" ++ text ++ "':\n" ++ e.text ++ "\n" := by
  simp [Report.refusal, unlines, String.join, String.append_assoc]

theorem output_refusal (h : ∀ g, e ≠ .grammar g) :
    (Report.refusal text e).output =
      "Definition error in '" ++ text ++ "': " ++ e.message ++ "\n" := by
  cases e with
  | grammar g => exact absurd rfl (h g)
  | _ => simp [Report.refusal, unlines, String.join]

theorem refusal_ne_grammar (h : ∀ g, e ≠ .grammar g) (g : GrammarError) :
    Report.refusal text e ≠ .refusal text (.grammar g) := by
  intro heq
  have houtput := congrArg (fun r => r.output.toList.head?) heq
  simp only [output_refusal h, output_refusal_grammar] at houtput
  simp at houtput

theorem refusal_ne_reserved (h : IsCompileError e) :
    Report.refusal text e ≠ .refusal text (.definition .reservedPrefix) := by
  intro heq
  have houtput := congrArg Report.output heq
  rw [output_refusal h.ne_grammar, output_refusal fun g hg => by cases hg] at houtput
  have hmessage : e.message = (Error.definition .reservedPrefix).message := by
    simpa using houtput
  obtain ⟨c, hc, hhead⟩ := h.exists_head?_message
  rw [hmessage] at hhead
  exact hc (Option.some.inj hhead).symm

theorem getsPast_refusal (h : IsCompileError e) : (Report.refusal text e).GetsPast text :=
  ⟨refusal_ne_grammar h.ne_grammar, refusal_ne_reserved h⟩

theorem getsPast_of_ne (h : ∀ e, r ≠ .refusal text e) : r.GetsPast text :=
  ⟨fun e => h (.grammar e), h _⟩

theorem ne_refusal_of_status (h : r.status ≠ 2) (e : Error) : r ≠ .refusal text e := by
  rintro rfl
  cases e <;> exact h rfl

theorem ne_refusal_of_output (h : r.output = "") (e : Error) : r ≠ .refusal text e := by
  rintro rfl
  have hlength := congrArg String.length h
  by_cases hg : ∃ g, e = .grammar g
  · obtain ⟨g, rfl⟩ := hg
    simp [output_refusal_grammar] at hlength
  · rw [output_refusal (not_exists.mp hg)] at hlength
    simp at hlength

end Refusal

/-! ## Modes that compile -/

/-- The report of a mode that refuses the names kept for placeholders before it parses. -/
structure Report.ResolvesFirst (r : Report) (text : String) : Prop where
  reserved : IsReserved text → r = .refusal text (.definition .reservedPrefix)
  unparsed : ¬ IsReserved text → ∀ e, TypeExpr.parse text = .error e →
    r = .refusal text (.grammar e)
  parsed : ¬ IsReserved text → ∀ t, TypeExpr.parse text = .ok t → r.GetsPast text

theorem Report.ResolvesFirst.getsPast_iff {r : Report} {text : String} (h : r.ResolvesFirst text) :
    r.GetsPast text ↔ ¬ IsReserved text ∧ ∃ t, TypeExpr.parse text = .ok t := by
  constructor
  · intro hpast
    have hreserved : ¬ IsReserved text := fun hreserved => hpast.2 (h.reserved hreserved)
    refine ⟨hreserved, ?_⟩
    cases hparse : TypeExpr.parse text with
    | ok t => exact ⟨t, rfl⟩
    | error e => exact absurd (h.unparsed hreserved e hparse) (hpast.1 e)
  · rintro ⟨hreserved, t, ht⟩
    exact h.parsed hreserved t ht

section Compiling

variable {text : String} {α : Type}

def Report.ofOutcome (text : String) (success : α → Report) : Except Error α → Report
  | .ok a => success a
  | .error e => .refusal text e

theorem resolvesFirst_ofOutcome {success : α → Report}
    {compile : TypeExpr × Environment Value → Except Error α}
    (hsuccess : ∀ a e, success a ≠ .refusal text e)
    (hfailure : ∀ t e, compile (t, []) = .error e → IsCompileError e) :
    (Report.ofOutcome text success
      (parseTemplate World.empty [.str text] [] >>= compile)).ResolvesFirst text where
  reserved h := by
    rw [parseTemplate_of_isReserved h]
    rfl
  unparsed h e he := by
    rw [parseTemplate_of_not_isReserved h, he]
    rfl
  parsed h t ht := by
    rw [parseTemplate_of_not_isReserved h, ht]
    change (Report.ofOutcome text success (compile (t, []))).GetsPast text
    cases hcompile : compile (t, []) with
    | ok a => exact getsPast_of_ne (hsuccess a)
    | error e => exact getsPast_refusal (hfailure t e hcompile)

theorem checkReport_ne_refusal (p : Predicate Value) (raws : List String) (e : Error) :
    checkReport p raws ≠ .refusal text e := by
  unfold checkReport
  split
  · exact ne_refusal_of_output rfl e
  · split_ifs
    · exact ne_refusal_of_status (show 0 ≠ 2 by decide) e
    · refine ne_refusal_of_status ?_ e
      rw [Report.judgement]
      split_ifs
      · exact show 0 ≠ 2 by decide
      · exact show 1 ≠ 2 by decide

theorem report_signature (text : String) (raws : List String) :
    Request.report ⟨.signature, text, raws⟩ =
      .ofOutcome text (fun s => .success (signatureLines s))
        (compileSignature World.empty [.str text] []) := by
  unfold Request.report
  dsimp only
  cases compileSignature World.empty [.str text] [] <;> rfl

theorem report_check (text : String) (raws : List String) :
    Request.report ⟨.check, text, raws⟩ =
      .ofOutcome text (fun p => checkReport p raws) (compileType World.empty [.str text] []) := by
  unfold Request.report
  dsimp only
  cases compileType World.empty [.str text] [] <;> rfl

theorem resolvesFirst_signature (raws : List String) :
    (Request.report ⟨.signature, text, raws⟩).ResolvesFirst text := by
  rw [report_signature, compileSignature]
  exact resolvesFirst_ofOutcome (fun _ => ne_refusal_of_status (show 0 ≠ 2 by decide))
    fun _ _ h => Signature.isCompileError h

theorem resolvesFirst_check (raws : List String) :
    (Request.report ⟨.check, text, raws⟩).ResolvesFirst text := by
  rw [report_check, compileType]
  exact resolvesFirst_ofOutcome (fun p => checkReport_ne_refusal p raws)
    fun _ _ h => Predicate.isCompileError h

end Compiling

/-! ## The modes compared -/

theorem report_tree (text : String) (raws : List String) :
    Request.report ⟨.tree, text, raws⟩ =
      match TypeExpr.parse text with
      | .ok t => ⟨accepted, t.listingText 0, ""⟩
      | .error e => .refusal text (.grammar e) :=
  rfl

theorem run_of_parse {arguments : List String} {r : Request} (h : Request.parse arguments = .ok r) :
    run arguments = r.report := by
  rw [run, h]

/-- The tree of an expression is shown exactly if it can be parsed. A signature is shown, and values
are checked, only of what can be parsed and does not use the names kept for placeholders. So the
modes agree about an expression exactly if it does not use these names or cannot be parsed. -/
theorem modes_agree_iff {shown signed checked : List String} {text : String}
    {raws raws' raws'' : List String} (hshown : Request.parse shown = .ok ⟨.tree, text, raws⟩)
    (hsigned : Request.parse signed = .ok ⟨.signature, text, raws'⟩)
    (hchecked : Request.parse checked = .ok ⟨.check, text, raws''⟩) :
    (∀ t, TypeExpr.parse text = .ok t → run shown = ⟨0, t.listingText 0, ""⟩) ∧
      (∀ e, TypeExpr.parse text = .error e → run shown = .refusal text (.grammar e)) ∧
      (run signed).ResolvesFirst text ∧ (run checked).ResolvesFirst text ∧
      (((run shown).status = 0 ↔ (run signed).GetsPast text ∧ (run checked).GetsPast text) ↔
        ¬ IsReserved text ∨ ¬ ∃ t, TypeExpr.parse text = .ok t) := by
  rw [run_of_parse hshown, run_of_parse hsigned, run_of_parse hchecked]
  have hok (t : TypeExpr) (ht : TypeExpr.parse text = .ok t) :
      Request.report ⟨.tree, text, raws⟩ = ⟨0, t.listingText 0, ""⟩ := by
    rw [report_tree, ht]
    rfl
  have herror (e : GrammarError) (he : TypeExpr.parse text = .error e) :
      Request.report ⟨.tree, text, raws⟩ = .refusal text (.grammar e) := by
    rw [report_tree, he]
  have hstatus : (Request.report ⟨.tree, text, raws⟩).status = 0 ↔
      ∃ t, TypeExpr.parse text = .ok t := by
    cases hparse : TypeExpr.parse text with
    | ok t => exact iff_of_true (congrArg Report.status (hok t hparse)) ⟨t, rfl⟩
    | error e =>
      rw [herror e hparse]
      exact iff_of_false (show 2 ≠ 0 by decide) fun ⟨t, ht⟩ => nomatch ht
  refine ⟨hok, herror, resolvesFirst_signature raws', resolvesFirst_check raws'', ?_⟩
  rw [hstatus, (resolvesFirst_signature raws').getsPast_iff,
    (resolvesFirst_check raws'').getsPast_iff, and_self_iff, iff_and_self, imp_iff_not_or, or_comm]

/-- A placeholder written by hand is shown as a tree and refused otherwise. -/
theorem modes_agree_iff_of_placeholder :
    Request.parse ["--parse", "$Ref0"] = .ok ⟨.tree, "$Ref0", []⟩ ∧
      Request.parse ["--signature", "$Ref0"] = .ok ⟨.signature, "$Ref0", []⟩ ∧
      Request.parse ["$Ref0"] = .ok ⟨.check, "$Ref0", []⟩ ∧
      run ["--parse", "$Ref0"] = ⟨0, "GenericType($Ref0)\n", ""⟩ ∧
      run ["--signature", "$Ref0"] = .refusal "$Ref0" (.definition .reservedPrefix) ∧
      run ["$Ref0"] = .refusal "$Ref0" (.definition .reservedPrefix) ∧
      ¬ ((run ["--parse", "$Ref0"]).status = 0 ↔
        (run ["--signature", "$Ref0"]).GetsPast "$Ref0" ∧ (run ["$Ref0"]).GetsPast "$Ref0") := by
  have hshown : Request.parse ["--parse", "$Ref0"] = .ok ⟨.tree, "$Ref0", []⟩ := by cbv
  have hsigned : Request.parse ["--signature", "$Ref0"] = .ok ⟨.signature, "$Ref0", []⟩ := by cbv
  have hchecked : Request.parse ["$Ref0"] = .ok ⟨.check, "$Ref0", []⟩ := by cbv
  have hreserved : IsReserved "$Ref0" := occursIn_iff.mp (by decide)
  have hparse : Grammar.parseText (expandTabs "$Ref0".toList) = .ok (.named "$Ref0") := by cbv
  rw [← TypeExpr.parse_eq_ok_iff_parseText] at hparse
  obtain ⟨hok, -, hsignature, hcheck, hagree⟩ := modes_agree_iff hshown hsigned hchecked
  refine ⟨hshown, hsigned, hchecked, hok _ hparse, hsignature.reserved hreserved,
    hcheck.reserved hreserved, mt hagree.mp ?_⟩
  exact not_or.mpr ⟨not_not.mpr hreserved, not_not.mpr ⟨_, hparse⟩⟩

end CommandLine

end TypeGuard
