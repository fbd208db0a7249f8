import ViewSync.Proofs.Parser.Leaves
import ViewSync.Proofs.Script.Pieces
import ViewSync.Proofs.View.Text

/-!
# ViewSync.Proofs.View.Lexemes

The lexemes of the text of an expression. Nothing in such a text runs together: it is read as `Expr.lexemes`, which
follow the tree (`written`). How a text starts, and so whether it gets parentheses, is told by the tree as well
(`Expr.front`).
-/

namespace ViewSync

open Script

/-! ## how a text starts -/

/-- How the text of an expression starts, as far as other expressions look at it. -/
inductive Front where
  | sign
  | flip
  | brace
  | plain
deriving DecidableEq, Repr

namespace Front

/-- What a text starts with, by its first character. -/
def ofChar (c : Char) : Front :=
  if c = '-' ∨ c = '+' then .sign
  else if c = '!' ∨ c = '~' then .flip
  else if c = '\x7b' then .brace
  else .plain

/-- A unary operator in front. -/
def isUnary (front : Front) : Bool :=
  front == .sign || front == .flip

end Front

namespace Expr

/-- How the text of an expression starts. What is behind a value does not change its start. -/
def front : Expr → Front
  | .unary _ .neg _ => .sign
  | .unary _ .pos _ => .sign
  | .unary .. => .flip
  | .dict .. => .brace
  | .attribute _ value _ => value.front
  | .subscript _ value _ => value.front
  | .call _ callee _ => callee.front
  | _ => .plain

mutual

/-- The lexemes of an expression. -/
def lexemes : Expr → List Script.Lexeme
  | .list _ items => mark "[" :: (listed (lexemesAll items) ++ [mark "]"])
  | .dict _ entries => mark "\x7b" :: (listed (lexemesEntries entries) ++ [mark "\x7d"])
  | .attribute _ value attr => value.lexemes ++ [mark ".", leaf attr.name]
  | .subscript _ value index => value.lexemes ++ mark "[" :: (index.lexemes ++ [mark "]"])
  | .call _ callee args =>
    let all := callee.lexemes ++ parens (listed (lexemesArgs args))
    if Lower.constructs callee then leaf "new" :: all else all
  | .binary _ left op right =>
    match Script.BinaryOp.ofSource? op with
    | some op =>
      parens (parensIf (op == .pow && left.front.isUnary) left.lexemes ++ mark op.symbol :: right.lexemes)
    | Option.none => []
  | .unary _ op operand => mark (unarySymbol op) :: parensIf (operand.front == .sign) operand.lexemes
  | .compare _ left [(op, right)] =>
    match Script.CompareOp.ofSource? op with
    | some op => parens (left.lexemes ++ mark op.symbol :: right.lexemes)
    | Option.none => []
  | .ternary _ test body orelse =>
    parens (test.lexemes ++ mark "?" :: (body.lexemes ++ mark ":" :: orelse.lexemes))
  | .lambda _ ps body =>
    parens (listed (ps.map fun p => [leaf p.name.name])) ++
      mark "=>" :: parensIf (body.front == .brace) body.lexemes
  | e => [leaf e.text]

/-- The lexemes of several expressions. -/
def lexemesAll : List Expr → List (List Script.Lexeme)
  | [] => []
  | e :: rest => e.lexemes :: lexemesAll rest

/-- The lexemes of the entries of a dict. -/
def lexemesEntries : List (Expr × Expr) → List (List Script.Lexeme)
  | [] => []
  | (key, value) :: rest => (key.lexemes ++ mark ":" :: value.lexemes) :: lexemesEntries rest

/-- The lexemes of the arguments of a call. -/
def lexemesArgs : List Arg → List (List Script.Lexeme)
  | [] => []
  | .positional value :: rest => value.lexemes :: lexemesArgs rest
  | .starred value :: rest => (mark "..." :: value.lexemes) :: lexemesArgs rest
  | _ :: rest => lexemesArgs rest

end

end Expr

/-! ## texts of expressions -/

/-- A text that is read as some lexemes wherever an expression may stand, and how it starts. -/
structure Written (text : String) (front : Front) (ls : List Script.Lexeme) : Prop where
  lexes : Lexes text.toList ls
  starts : ∃ c cs, text.toList = c :: cs ∧ c ≠ '=' ∧ Front.ofChar c = front

/-- A text between parentheses, where they are needed. -/
def inParens (needed : Bool) (t : String) : String :=
  if needed then "(" ++ t ++ ")" else t

/-- Whether a text starts with one of some characters is known from its front. -/
theorem Front.startsWith (c : Char) :
    ['-', '+'].contains c = (ofChar c == .sign) ∧ ['-', '+', '!', '~'].contains c = (ofChar c).isUnary ∧
      ['\x7b'].contains c = (ofChar c == .brace) := by
  unfold ofChar
  split_ifs with hsign hflip hbrace
  · obtain rfl | rfl := hsign <;> decide
  · obtain rfl | rfl := hflip <;> decide
  · subst hbrace
    decide
  · rw [not_or] at hsign hflip
    simp [hsign, hflip, hbrace, isUnary]

namespace Written

variable {t t' : String} {front front' : Front} {ls ls' : List Script.Lexeme}

theorem startsWithAny (h : Written t front ls) :
    Fragment.startsWithAny ['-', '+'] t = (front == .sign) ∧
      Fragment.startsWithAny ['-', '+', '!', '~'] t = front.isUnary ∧
      Fragment.startsWithAny ['\x7b'] t = (front == .brace) := by
  obtain ⟨c, cs, htext, -, rfl⟩ := h.starts
  simp only [Fragment.startsWithAny, htext]
  exact Front.startsWith c

theorem startsWithAny_append (h : Written t front ls) (chars : List Char) (tail : String) :
    Fragment.startsWithAny chars (t ++ tail) = Fragment.startsWithAny chars t := by
  obtain ⟨c, cs, htext, -⟩ := h.starts
  simp [Fragment.startsWithAny, htext]

/-- Something behind a text does not change how it starts. -/
theorem extend (h : Written t front ls) (rest : List Char) (htext : t'.toList = t.toList ++ rest)
    (hlexes : Lexes t'.toList ls') : Written t' front ls' := by
  obtain ⟨c, cs, hcons, hne, hfront⟩ := h.starts
  refine ⟨hlexes, c, cs ++ rest, ?_, hne, hfront⟩
  rw [htext, hcons, List.cons_append]

end Written

/-- A text that starts like nothing special. -/
theorem written_plain {t : String} {ls : List Script.Lexeme} (hfirst : t.toList.head?.any ['(', '[', 'n'].contains)
    (h : Lexes t.toList ls) : Written t .plain ls := by
  cases htext : t.toList with
  | nil => simp [htext] at hfirst
  | cons c cs =>
      have hc : c = '(' ∨ c = '[' ∨ c = 'n' := by simpa [htext] using hfirst
      refine ⟨h, c, cs, htext, ?_⟩
      obtain rfl | rfl | rfl := hc
      all_goals exact ⟨by decide, rfl⟩

/-- A leaf starts like nothing special. -/
theorem written_leaf {t : String} (h : IsLeaf t) : Written t .plain [leaf t] := by
  have hstart : ∃ c cs, t.toList = c :: cs ∧ (isWordStart c = true ∨ c.isDigit = true ∨ c = '"') := by
    cases h with
    | word h =>
        obtain ⟨c, cs, htext, hstart⟩ := isNameStart_of_isNameText h
        exact ⟨c, cs, htext, .inl (by simp [isWordStart, hstart])⟩
    | number h =>
        obtain ⟨c, cs, htext, hdigit⟩ := isDigit_of_isNumberText h
        exact ⟨c, cs, htext, .inr (.inl hdigit)⟩
    | string value h => exact ⟨'"', value.toList.flatMap Json.escapeChar ++ ['"'], by simp [h, Json.quote], by simp⟩
  obtain ⟨c, cs, htext, hc⟩ := hstart
  have hnot : ∀ d ∈ ['=', '-', '+', '!', '~', '\x7b'], c ≠ d := by
    rintro d hd rfl
    have hfalse : isWordStart c = false ∧ c.isDigit = false ∧ c ≠ '"' := by
      simp only [List.mem_cons, List.not_mem_nil, or_false] at hd
      obtain rfl | rfl | rfl | rfl | rfl | rfl := hd
      all_goals exact ⟨rfl, rfl, by decide⟩
    simp [hfalse] at hc
  refine ⟨h.lexes, c, cs, htext, hnot '=' (by simp), ?_⟩
  simp [Front.ofChar, hnot]

/-- An expression in parentheses, where they are needed. -/
theorem written_inParens (needed : Bool) {t : String} {front : Front} {ls : List Script.Lexeme}
    (h : Written t front ls) :
    Written (inParens needed t) (if needed then .plain else front) (parensIf needed ls) := by
  cases needed with
  | false => exact h
  | true => exact written_plain (by simp [inParens]) (by simpa [inParens, parensIf] using h.lexes.parens.lexes)

theorem written_binary {t t' : String} {front front' : Front} {ls ls' : List Script.Lexeme}
    (op : Script.BinaryOp) (h : Written t front ls) (h' : Written t' front' ls') :
    Written (Fragment.binary t op t') .plain
      (parens (parensIf (op == .pow && front.isUnary) ls ++ mark op.symbol :: ls')) := by
  have hbase := written_inParens (op == .pow && front.isUnary) h
  have hall := lexes_operation (closed_binaryOp op) hbase.lexes h'.lexes
  have htext : Fragment.binary t op t' =
      "(" ++ inParens (op == .pow && front.isUnary) t ++ " " ++ op.symbol ++ " " ++ t' ++ ")" := by
    rw [Fragment.binary, h.startsWithAny.2.1]
    by_cases hpow : op = .pow <;> cases front.isUnary <;> simp [hpow, inParens, ← String.toList_inj]
  rw [← htext] at hall
  exact written_plain (by simp [htext]) hall

/-- How a unary operation starts. -/
theorem starts_unary (op : UnaryOp) (t : String) (span : Span) (e : Expr) :
    ∃ c cs, (unarySymbol op ++ t).toList = c :: cs ∧ c ≠ '=' ∧ Front.ofChar c = (Expr.unary span op e).front := by
  rw [String.toList_append]
  cases op
  all_goals exact ⟨_, _, rfl, by decide, rfl⟩

theorem written_unary {t : String} {ls : List Script.Lexeme} (op : UnaryOp) (span : Span) (e : Expr)
    (h : Written t e.front ls) :
    Written (Fragment.unary op t) (Expr.unary span op e).front
      (mark (unarySymbol op) :: parensIf (e.front == .sign) ls) := by
  have htext : Fragment.unary op t = unarySymbol op ++ inParens (e.front == .sign) t := by
    rw [Fragment.unary, h.startsWithAny.1]
    cases e.front == .sign <;> simp [inParens, ← String.toList_inj]
  obtain ⟨hlexes, c, cs, hcons, hequal, hfront⟩ := written_inParens (e.front == .sign) h
  have hsign : Front.ofChar c ≠ .sign := by
    rw [hfront]
    cases hfront : e.front <;> decide
  rw [htext]
  refine ⟨fun rest hrest => ?_, starts_unary op _ span e⟩
  have hhead : ∀ d ∈ ((inParens (e.front == .sign) t).toList ++ rest).head?, d ≠ '-' ∧ d ≠ '+' ∧ d ≠ '=' := by
    intro d hd
    obtain rfl : c = d := by simpa [hcons] using hd
    refine ⟨?_, ?_, hequal⟩ <;> (rintro rfl; exact hsign rfl)
  rw [String.toList_append, List.append_assoc, lexemes_unaryOp op hhead, hlexes rest hrest, prepend_prepend]
  rfl

theorem written_lambda {t : String} {front : Front} {ls : List Script.Lexeme} {names : List String}
    (hnames : ∀ name ∈ names, isNameText name = true) (h : Written t front ls) :
    Written (Fragment.lambda names t) .plain
      (parens (listed (names.map fun name => [leaf name])) ++ mark "=>" :: parensIf (front == .brace) ls) := by
  have hlist : List.Forall₂ (fun part ls => Lexes part.toList ls) names (names.map fun name => [leaf name]) :=
    List.forall₂_map_right_iff.2 (List.forall₂_same.2 fun name hname => (IsLeaf.word (hnames name hname)).lexes)
  have hhead := (lexes_commas hlist).parens.append closed_arrow.spaceBefore
  have hall := hhead.appendLexes (written_inParens (front == .brace) h).lexes
  have htext : Fragment.lambda names t =
      "(" ++ Fragment.commas names ++ ") => " ++ inParens (front == .brace) t := by
    rw [Fragment.lambda, h.startsWithAny.2.2]
    rfl
  refine written_plain (by simp [htext]) ?_
  simpa [htext] using hall

/-! ## the text of an expression -/

/-- Keys of a dict are leaves. -/
theorem isLeaf_key {key : Expr} (hkey : key.isKey = true) (h : key.lexical = true) : IsLeaf key.text := by
  cases key with
  | int span value => exact isLeaf_int (by simpa [Expr.lexical, TokenKind.lexical] using h)
  | float span value => exact isLeaf_float h
  | str span text => exact isLeaf_string text
  | _ => cases hkey

mutual

/-- The text of an expression is read as its lexemes, whatever follows it that may follow an expression. -/
theorem written {e : Expr} (h : e.lexical = true) (ht : e.translatable = true) :
    Written e.text e.front e.lexemes := by
  match e with
  | .int span value => exact written_leaf (isLeaf_int (by simpa [Expr.lexical, TokenKind.lexical] using h))
  | .float span value => exact written_leaf (isLeaf_float h)
  | .str span text => exact written_leaf (isLeaf_string text)
  | .bool span value => exact written_leaf (isLeaf_boolean value)
  | .none span => exact written_leaf isLeaf_null
  | .name span id => exact written_leaf (.word h)
  | .tuple .. | .slice .. | .comprehension .. | .yield .. => cases ht
  | .list span items =>
      have hitems := lexes_all h ht
      exact written_plain (by simp [Expr.text, Fragment.list]) (lexes_list hitems)
  | .dict span items =>
      have hitems := lexes_entries h ht
      have htext : (Expr.dict span items).text.toList =
          '\x7b' ::
            (Fragment.commas ((Expr.entryTexts items).map fun e => e.1 ++ ": " ++ e.2) ++ "\x7d").toList := by
        simp [Expr.text, Fragment.dict]
      exact ⟨lexes_dict hitems, _, _, htext, by decide, rfl⟩
  | .attribute span value attr =>
      simp only [Expr.lexical, Expr.translatable, Bool.and_eq_true] at h ht
      have hvalue := written h.1 ht
      exact hvalue.extend ('.' :: attr.name.toList) (by simp [Expr.text, Fragment.member])
        (lexes_member hvalue.lexes h.2)
  | .subscript span value index =>
      simp only [Expr.lexical, Expr.translatable, Bool.and_eq_true] at h ht
      have hvalue := written h.1 ht.1
      have hindex := written h.2 ht.2
      exact hvalue.extend ('[' :: (index.text.toList ++ [']'])) (by simp [Expr.text, Fragment.subscript])
        (lexes_subscript hvalue.lexes hindex.lexes)
  | .call span callee items =>
      simp only [Expr.lexical, Expr.translatable, Bool.and_eq_true] at h ht
      have hcallee := written h.1 ht.1
      have hitems := lexes_args h.2 ht.2
      rw [Expr.text, Expr.lexemes]
      cases hnew : Lower.constructs callee with
      | false =>
          exact hcallee.extend ('(' :: ((Fragment.commas (Expr.argTexts items)).toList ++ [')']))
            (by simp [Fragment.call]) (lexes_call hcallee.lexes hitems)
      | true =>
          have hplain : callee.front = .plain := by
            cases callee <;> first | rfl | cases hnew
          rw [Expr.front, hplain]
          exact written_plain (by simp [Fragment.construct]) (lexes_construct hcallee.lexes hitems)
  | .binary span left op right =>
      simp only [Expr.lexical, Expr.translatable, Bool.and_eq_true] at h ht
      rw [Expr.text, Expr.lexemes]
      obtain ⟨symbol, hop⟩ := Option.isSome_iff_exists.1 ((Lower.isSome_binaryOp op).trans ht.2)
      rw [hop]
      exact written_binary symbol (written h.1 ht.1.1) (written h.2 ht.1.2)
  | .unary span op operand => exact written_unary op span operand (written h ht)
  | .compare span left [(op, right)] =>
      simp only [Expr.lexical, Expr.operandsLexical, Expr.translatable, Bool.and_eq_true, and_true] at h ht
      rw [Expr.text, Expr.lexemes]
      obtain ⟨symbol, hop⟩ := Option.isSome_iff_exists.1 ((Lower.isSome_compareOp op).trans ht.2)
      rw [hop]
      have hall := lexes_operation (closed_compareOp symbol) (written h.1 ht.1.1).lexes (written h.2 ht.1.2).lexes
      exact written_plain (by simp [Fragment.compare]) hall
  | .compare span left [] => cases ht
  | .compare span left (_ :: _ :: _) => cases ht
  | .ternary span test body orelse =>
      simp only [Expr.lexical, Expr.translatable, Bool.and_eq_true] at h ht
      have hall := lexes_ternary (written h.1.1 ht.1.1).lexes (written h.1.2 ht.1.2).lexes (written h.2 ht.2).lexes
      exact written_plain (by simp [Expr.text, Fragment.ternary]) hall
  | .lambda span ps body =>
      simp only [Expr.lexical, Expr.translatable, Bool.and_eq_true, List.all_eq_true] at h ht
      have hnames : ∀ name ∈ ps.map fun p => p.name.name, isNameText name = true := List.forall_mem_map.2 h.1
      have hall := written_lambda hnames (written h.2 ht.2)
      rw [List.map_map] at hall
      exact hall

theorem lexes_all {items : List Expr} (h : Expr.allLexical items = true) (ht : Expr.allTranslatable items = true) :
    List.Forall₂ (fun text ls => Lexes text.toList ls) (Expr.texts items) (Expr.lexemesAll items) := by
  match items with
  | [] => exact .nil
  | e :: rest =>
      simp only [Expr.allLexical, Expr.allTranslatable, Bool.and_eq_true] at h ht
      exact .cons (written h.1 ht.1).lexes (lexes_all h.2 ht.2)

theorem lexes_entries {items : List (Expr × Expr)} (h : Expr.entriesLexical items = true)
    (ht : Expr.entriesTranslatable items = true) :
    List.Forall₂ (fun entry ls => Lexes (entry.1 ++ ": " ++ entry.2).toList ls) (Expr.entryTexts items)
      (Expr.lexemesEntries items) := by
  match items with
  | [] => exact .nil
  | (key, value) :: rest =>
      simp only [Expr.entriesLexical, Expr.entriesTranslatable, Bool.and_eq_true] at h ht
      have hkey := written h.1.1 (Lower.translatable_of_isKey ht.1.1)
      exact .cons (lexes_entry hkey.lexes (written h.1.2 ht.1.2).lexes) (lexes_entries h.2 ht.2)

theorem lexes_args {items : List Arg} (h : Expr.argsLexical items = true) (ht : Expr.argsTranslatable items = true) :
    List.Forall₂ (fun text ls => Lexes text.toList ls) (Expr.argTexts items) (Expr.lexemesArgs items) := by
  match items with
  | [] => exact .nil
  | .positional value :: rest =>
      simp only [Expr.argsLexical, Expr.argsTranslatable, Bool.and_eq_true] at h ht
      exact .cons (written h.1 ht.1).lexes (lexes_args h.2 ht.2)
  | .starred value :: rest =>
      simp only [Expr.argsLexical, Expr.argsTranslatable, Bool.and_eq_true] at h ht
      exact .cons (lexes_spread (written h.1 ht.1).lexes) (lexes_args h.2 ht.2)
  | .keyword .. :: rest => cases ht
  | .doubleStarred .. :: rest => cases ht

end

/-- The lexemes of the whole text. -/
theorem lexemes_text {e : Expr} (h : e.lexical = true) (ht : e.translatable = true) :
    Script.lexemes e.text.toList = some e.lexemes := by
  have hread := (written h ht).lexes [] rfl
  rw [List.append_nil] at hread
  rw [hread, Script.lexemes]
  simp [prepend]

end ViewSync
