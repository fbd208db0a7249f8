import ViewSync.Proofs.Decimal.Sign
import ViewSync.Proofs.Token.Positions

/-!
# ViewSync.Proofs.Token.Lexical

What the tokens of a source can be: numbers have no sign, and names are texts of names (`lexical_lex`). A sign is a
token of its own, and a numeral is read as a number without one. Beside the layout there are just the tokens that
stand for texts (`textual_lex`).
-/

namespace ViewSync

/-- The text of a name. -/
def isNameText (s : String) : Bool :=
  match s.toList with
  | [] => false
  | c :: cs => isNameStart c && cs.all isNamePart

/-- The leaves that the tokens of a source have: numbers without a sign and texts of names. -/
def TokenKind.lexical : TokenKind → Bool
  | .int value => decide (0 ≤ value)
  | .float value => value.toBits >>> 63 == 0
  | .identifier name => isNameText name
  | _ => true

/-- The tokens that stand for texts: whole numbers without a sign that fit 64 bits, floats, strings, names that are
no words of the language, those words, symbols, and the operators that may have an equals sign behind them. -/
def TokenKind.textual : TokenKind → Bool
  | .int value => decide (0 ≤ value ∧ value ≤ Decimal.maxInt64)
  | .float _ => true
  | .str _ => true
  | .identifier name => isNameText name && (ofWord? name).isNone
  | .keyword _ => true
  | .reserved word => reservedWords.contains word
  | .symbol _ => true
  | .augAssign op => !op.isLogical
  | _ => false

theorem TokenKind.isLayout_of_textual {kind : TokenKind} (h : kind.textual = true) : kind.isLayout = false := by
  cases kind <;> first | rfl | cases h

/-! ## single lexemes -/

theorem TokenKind.lexical_float {value : Float} (h : Decimal.Signless value) :
    (TokenKind.float value).lexical = true := beq_iff_eq.2 h

theorem TokenKind.lexical_natCast (value : Nat) : (TokenKind.int value).lexical = true :=
  decide_eq_true (Int.natCast_nonneg value)

theorem TokenKind.textual_natCast {value : Nat} (h : value ≤ Decimal.maxInt64) :
    (TokenKind.int value).textual = true :=
  decide_eq_true ⟨Int.natCast_nonneg value, Int.ofNat_le.2 h⟩

theorem isNamePart_of_isNameStart {c : Char} (h : isNameStart c = true) : isNamePart c = true := by
  simp only [isNameStart, isNamePart, Char.isAlphanum, Bool.or_eq_true] at *
  exact h.imp_left .inl

theorem isNameText_takeWhile {c : Char} (hc : isNameStart c = true) (cs : List Char) :
    isNameText (String.ofList ((c :: cs).takeWhile isNamePart)) = true := by
  rw [List.takeWhile_cons_of_pos (isNamePart_of_isNameStart hc)]
  simp [isNameText, hc, List.all_takeWhile]

/-- A backslash between tokens is no token, whether it joins two lines or is refused. -/
theorem lexeme_scanJoin (cur : Cursor) : (scanJoin cur).lexeme = .trivia := by
  unfold scanJoin
  simp only
  split <;> split <;> rfl

/-- Where a token comes from: the kinds of lexemes, with what is known of each. -/
theorem token_cases {cur : Cursor} {kind : TokenKind} (h : (scanHere cur).lexeme = .token kind) :
    (∃ content, kind = .str content) ∨ (∃ cs, kind = (decimalNumber cs).1) ∨
      (∃ value : Nat, value ≤ Decimal.maxInt64 ∧ kind = .int value) ∨
      (∃ name, isNameText name = true ∧ kind = .ofWord name) ∨ ∃ entry ∈ operatorTable, kind = entry.2 := by
  unfold scanHere at h
  split at h
  · cases h
  · next c cs hrest =>
      split_ifs at h with hline hcomment hjoin hquote hnumber hname
      · rw [lexeme_scanJoin] at h
        cases h
      · cases h
        exact .inl ⟨_, rfl⟩
      · unfold scanNumber at h
        split at h
        · split at h
          · simp only at h
            split at h
            · next hfits =>
                cases h
                rw [Bool.and_eq_true, decide_eq_true_eq] at hfits
                exact .inr (.inr (.inl ⟨_, hfits.2, rfl⟩))
            · cases h
              exact .inr (.inr (.inl ⟨0, Nat.zero_le _, rfl⟩))
          · cases h
            exact .inr (.inl ⟨_, rfl⟩)
        · cases h
          exact .inr (.inl ⟨_, rfl⟩)
      · cases h
        rw [hrest]
        exact .inr (.inr (.inr (.inl ⟨_, isNameText_takeWhile hname cs, rfl⟩)))
      · unfold scanOperator at h
        split at h
        · next size hop =>
            cases h
            obtain ⟨entry, hentry, hpair⟩ := Option.map_eq_some_iff.1 hop
            cases hpair
            exact .inr (.inr (.inr (.inr ⟨entry, List.mem_of_find?_eq_some hentry, rfl⟩)))
        · cases h

theorem lexical_decimalNumber (cs : List Char) : (decimalNumber cs).1.lexical = true := by
  have hfloat (n : Decimal.Numeral) := TokenKind.lexical_float (Decimal.signless_toFloat n)
  simp only [decimalNumber, apply_ite Prod.fst, apply_ite TokenKind.lexical, TokenKind.lexical_natCast, hfloat,
    ite_self]

theorem textual_decimalNumber (cs : List Char) : (decimalNumber cs).1.textual = true := by
  unfold decimalNumber
  extract_lets whole afterWhole fraction fractionSize afterFraction mark exponent negative digits value size power
  split
  · by_cases hfits : value ≤ Decimal.maxInt64
    · rw [if_pos hfits]
      exact TokenKind.textual_natCast hfits
    · rw [if_neg hfits]
      rfl
  · rfl

/-- A word is a name, or it is one of the words that never are. -/
theorem lexical_ofWord {word : String} (h : isNameText word = true) : (TokenKind.ofWord word).lexical = true := by
  unfold TokenKind.ofWord TokenKind.ofWord?
  split
  · rfl
  · split
    · rfl
    · exact h

theorem textual_ofWord {word : String} (h : isNameText word = true) : (TokenKind.ofWord word).textual = true := by
  cases hword : TokenKind.ofWord? word with
  | none => simp [TokenKind.ofWord, TokenKind.textual, h, hword]
  | some kind =>
      rw [TokenKind.ofWord, hword]
      unfold TokenKind.ofWord? at hword
      split at hword
      · cases hword
        rfl
      · split at hword
        · next hreserved =>
            cases hword
            exact hreserved
        · cases hword

/-- The token at a cursor. -/
theorem lexical_scanHere {cur : Cursor} {kind : TokenKind} (h : (scanHere cur).lexeme = .token kind) :
    kind.lexical = true := by
  have htable : ∀ entry ∈ operatorTable, entry.2.lexical = true := by decide
  obtain ⟨content, rfl⟩ | ⟨cs, rfl⟩ | ⟨value, -, rfl⟩ | ⟨name, hname, rfl⟩ | ⟨entry, hentry, rfl⟩ := token_cases h
  · rfl
  · exact lexical_decimalNumber cs
  · exact TokenKind.lexical_natCast value
  · exact lexical_ofWord hname
  · exact htable entry hentry

theorem textual_scanHere {cur : Cursor} {kind : TokenKind} (h : (scanHere cur).lexeme = .token kind) :
    kind.textual = true := by
  have htable : ∀ entry ∈ operatorTable, entry.2.textual = true := by decide
  obtain ⟨content, rfl⟩ | ⟨cs, rfl⟩ | ⟨value, hfits, rfl⟩ | ⟨name, hname, rfl⟩ | ⟨entry, hentry, rfl⟩ :=
    token_cases h
  · rfl
  · exact textual_decimalNumber cs
  · exact TokenKind.textual_natCast hfits
  · exact textual_ofWord hname
  · exact htable entry hentry

/-! ## all tokens -/

namespace Lexer

/-- What holds of every token that is scanned holds of all tokens of a run. -/
theorem forall_worded_run {p : TokenKind → Prop}
    (hscan : ∀ {cur : Cursor} {kind : TokenKind}, (scanHere cur).lexeme = .token kind → p kind) {lx : Lexer}
    (h : ∀ t ∈ worded lx.tokens, p t.kind) : ∀ t ∈ worded lx.run.tokens, p t.kind := by
  fun_induction run lx with
  | case1 lx _ => exact h
  | case2 lx _ ih =>
      refine ih ?_
      obtain ⟨htokens, -⟩ | ⟨mid, kind, -, hlexeme, -, htokens⟩ := lx.step_cases
      · rwa [htokens]
      · rw [htokens]
        exact List.forall_mem_cons.2 ⟨hscan hlexeme, h⟩

/-- The tokens so far are as a source has them. -/
def IsLexical (lx : Lexer) : Prop :=
  ∀ t ∈ worded lx.tokens, t.kind.lexical = true

theorem isLexical_run {lx : Lexer} (h : lx.IsLexical) : lx.run.IsLexical :=
  forall_worded_run lexical_scanHere h

end Lexer

/-- The tokens of a source have numbers without a sign and texts of names. -/
theorem lexical_lex (text : String) : ∀ t ∈ (lex text).tokens, t.kind.lexical = true := by
  intro t ht
  by_cases hlayout : t.kind.isLayout = true
  · cases hkind : t.kind <;> rw [hkind] at hlayout <;> first | rfl | cases hlayout
  · have hrun : (Lexer.start text).run.IsLexical :=
      Lexer.isLexical_run fun _ hmem => absurd hmem List.not_mem_nil
    have hmem := mem_worded.2 ⟨ht, Bool.eq_false_iff.2 hlayout⟩
    rw [worded_lex] at hmem
    exact hrun t (List.mem_reverse.1 hmem)

/-- The tokens of a source are layout, or they stand for texts. -/
theorem textual_lex (text : String) : ∀ t ∈ worded (lex text).tokens, t.kind.textual = true := by
  intro t ht
  rw [worded_lex] at ht
  exact Lexer.forall_worded_run textual_scanHere (fun _ hmem => absurd hmem List.not_mem_nil) t
    (List.mem_reverse.1 ht)

end ViewSync
