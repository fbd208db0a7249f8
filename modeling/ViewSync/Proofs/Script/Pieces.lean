import Mathlib.Data.List.Forall2
import ViewSync.Proofs.Script.Lexemes

/-!
# ViewSync.Proofs.Script.Pieces

The lexemes of a piece of text, from those of its parts. A piece that nothing can go on (`Closed`) may stand in
front of anything; the text of an expression (`Lexes`) may stand in front of what follows an expression.
-/

namespace ViewSync.Script

/-! ## putting pieces together -/

/-- A text is read as some lexemes, whatever follows it. -/
def Closed (text : List Char) (ls : List Lexeme) : Prop :=
  ∀ rest, lexemes (text ++ rest) = prepend ls (lexemes rest)

section

variable {text text' : List Char} {ls ls' : List Lexeme}

theorem Closed.lexes (h : Closed text ls) : Lexes text ls := fun rest _ => h rest

theorem lexes_nil : Lexes [] [] := fun rest _ => (prepend_nil (lexemes rest)).symm

theorem Closed.append (h : Closed text ls) (h' : Closed text' ls') : Closed (text ++ text') (ls ++ ls') := by
  intro rest
  rw [List.append_assoc, h, h', prepend_prepend]

theorem Closed.appendLexes (h : Closed text ls) (h' : Lexes text' ls') :
    Lexes (text ++ text') (ls ++ ls') := by
  intro rest hends
  rw [List.append_assoc, h, h' rest hends, prepend_prepend]

/-- An expression in front of a piece that may follow it. -/
theorem Lexes.append (h : Lexes text ls) (hends : ∀ rest, ends (text' ++ rest) = true) (h' : Closed text' ls') :
    Closed (text ++ text') (ls ++ ls') := by
  intro rest
  rw [List.append_assoc, h _ (hends rest), h', prepend_prepend]

theorem Lexes.appendLexes (h : Lexes text ls) (hends : ∀ rest, ends (text' ++ rest) = true)
    (h' : Lexes text' ls') : Lexes (text ++ text') (ls ++ ls') := by
  intro rest hrest
  rw [List.append_assoc, h _ (hends rest), h' rest hrest, prepend_prepend]

end

/-! ## marks as pieces -/

theorem closed_single {c : Char} (h : c ∈ ['(', ')', '[', ']', '\x7b', '\x7d', ',', ':', '~']) :
    Closed [c] [⟨.mark, [c]⟩] := fun rest => lexemes_single h rest

theorem Closed.space {text : List Char} {ls : List Lexeme} (h : Closed text ls) : Closed (text ++ [' ']) ls := by
  intro rest
  rw [List.append_assoc, h, List.singleton_append, lexemes_space]

theorem Closed.spaceBefore {text : List Char} {ls : List Lexeme} (h : Closed text ls) :
    Closed (' ' :: text) ls := by
  intro rest
  rw [List.cons_append, lexemes_space, h]

theorem closed_binaryOp (op : BinaryOp) : Closed (op.symbol.toList ++ [' ']) [mark op.symbol] := by
  intro rest
  rw [List.append_assoc]
  exact lexemes_binaryOp op rest

theorem closed_compareOp (op : CompareOp) : Closed (op.symbol.toList ++ [' ']) [mark op.symbol] := by
  intro rest
  rw [List.append_assoc]
  exact lexemes_compareOp op rest

theorem closed_question : Closed ['?', ' '] [mark "?"] := lexemes_question

theorem closed_arrow : Closed ['=', '>', ' '] [mark "=>"] := lexemes_arrow

theorem closed_spread : Closed ['.', '.', '.'] [mark "..."] := lexemes_spread

theorem closed_new : Closed ['n', 'e', 'w', ' '] [leaf "new"] := by
  intro rest
  have hname : isNameText "new" = true := rfl
  have hword := (IsLeaf.word hname).lexes (' ' :: rest) rfl
  rwa [lexemes_space] at hword

/-! ## parts between brackets -/

/-- Lexemes in parentheses. -/
def parens (ls : List Lexeme) : List Lexeme :=
  mark "(" :: (ls ++ [mark ")"])

/-- Lexemes in parentheses, where they are needed. -/
def parensIf (needed : Bool) (ls : List Lexeme) : List Lexeme :=
  if needed then parens ls else ls

/-- The lexemes of parts, with commas between them. -/
def listed (parts : List (List Lexeme)) : List Lexeme :=
  [mark ","].intercalate parts

theorem listed_cons (ls ls' : List Lexeme) (lss : List (List Lexeme)) :
    listed (ls :: ls' :: lss) = ls ++ mark "," :: listed (ls' :: lss) := by
  rw [listed, List.intercalate_cons_cons, listed]
  simp

/-- A text between brackets. -/
theorem Lexes.between {text : List Char} {ls : List Lexeme} (h : Lexes text ls) (opening closing : Char)
    (hopening : opening ∈ ['(', '[', '\x7b']) (hclosing : closing ∈ [')', ']', '\x7d']) :
    Closed (opening :: (text ++ [closing])) (⟨.mark, [opening]⟩ :: (ls ++ [⟨.mark, [closing]⟩])) := by
  have hopen : Closed [opening] [⟨.mark, [opening]⟩] := closed_single (by grind)
  have hclose : Closed [closing] [⟨.mark, [closing]⟩] := closed_single (by grind)
  have hends : ∀ rest, ends ([closing] ++ rest) = true := by
    intro rest
    simp only [List.mem_cons, List.not_mem_nil, or_false] at hclosing
    obtain rfl | rfl | rfl := hclosing <;> rfl
  exact hopen.append (h.append hends hclose)

theorem Lexes.parens {text : List Char} {ls : List Lexeme} (h : Lexes text ls) :
    Closed ('(' :: (text ++ [')'])) (parens ls) :=
  h.between '(' ')' (by simp) (by simp)

/-- Parts with commas between them. -/
theorem lexes_commas {parts : List String} {lss : List (List Lexeme)}
    (h : List.Forall₂ (fun part ls => Lexes part.toList ls) parts lss) :
    Lexes (Fragment.commas parts).toList (listed lss) := by
  rw [Fragment.commas, String.toList_intercalate, listed]
  have hcomma : Closed [',', ' '] [mark ","] := (closed_single (c := ',') (by simp)).space
  induction h with
  | nil => exact lexes_nil
  | @cons part ls parts lss hpart hparts ih =>
      cases hparts with
      | nil => simpa using hpart
      | @cons part' ls' parts lss hpart' hparts =>
          rw [List.map_cons, List.map_cons, List.intercalate_cons_cons, List.intercalate_cons_cons]
          exact (hpart.append (fun _ => rfl) hcomma).appendLexes ih

/-! ## fragments -/

section

variable {t t' t'' : String} {ls ls' ls'' : List Lexeme}

theorem lexes_member (h : Lexes t.toList ls) {attr : String} (hattr : isNameText attr = true) :
    Lexes (Fragment.member t attr).toList (ls ++ [mark ".", leaf attr]) := by
  obtain ⟨c, cs, htext, hstart⟩ := isNameStart_of_isNameText hattr
  have hpoint : Lexes ('.' :: attr.toList) ([mark "."] ++ [leaf attr]) := by
    intro rest hrest
    have hne : c ≠ '.' := by
      rintro rfl
      cases hstart
    have hread := (IsLeaf.word hattr).lexes rest hrest
    rw [htext, List.cons_append] at hread ⊢
    rw [List.cons_append, lexemes_point hne, hread, prepend_prepend]
  have hends : ∀ rest, ends ('.' :: attr.toList ++ rest) = true := by
    intro rest
    simp [htext, ends, hstart]
  have hall := h.appendLexes hends hpoint
  simpa [Fragment.member] using hall

theorem lexes_subscript (h : Lexes t.toList ls) (hindex : Lexes t'.toList ls') :
    Lexes (Fragment.subscript t t').toList (ls ++ mark "[" :: (ls' ++ [mark "]"])) := by
  have hall := h.append (fun _ => rfl) (hindex.between '[' ']' (by simp) (by simp))
  simpa [Fragment.subscript, mark] using hall.lexes

theorem lexes_call (h : Lexes t.toList ls) {args : List String} {lss : List (List Lexeme)}
    (hargs : List.Forall₂ (fun part ls => Lexes part.toList ls) args lss) :
    Lexes (Fragment.call t args).toList (ls ++ parens (listed lss)) := by
  have hall := h.append (fun _ => rfl) (lexes_commas hargs).parens
  simpa [Fragment.call] using hall.lexes

theorem lexes_construct (h : Lexes t.toList ls) {args : List String} {lss : List (List Lexeme)}
    (hargs : List.Forall₂ (fun part ls => Lexes part.toList ls) args lss) :
    Lexes (Fragment.construct t args).toList (leaf "new" :: (ls ++ parens (listed lss))) := by
  have hall := closed_new.appendLexes (lexes_call h hargs)
  simpa [Fragment.construct] using hall

theorem lexes_spread (h : Lexes t.toList ls) :
    Lexes (Fragment.spread t).toList (mark "..." :: ls) := by
  have hall := closed_spread.appendLexes h
  simpa [Fragment.spread] using hall

theorem lexes_list {items : List String} {lss : List (List Lexeme)}
    (h : List.Forall₂ (fun part ls => Lexes part.toList ls) items lss) :
    Lexes (Fragment.list items).toList (mark "[" :: (listed lss ++ [mark "]"])) := by
  have hall := (lexes_commas h).between '[' ']' (by simp) (by simp)
  simpa [Fragment.list, mark] using hall.lexes

/-- The key and the value of an entry. -/
theorem lexes_entry (h : Lexes t.toList ls) (h' : Lexes t'.toList ls') :
    Lexes (t ++ ": " ++ t').toList (ls ++ mark ":" :: ls') := by
  have hcolon : Closed [':', ' '] [mark ":"] := (closed_single (c := ':') (by simp)).space
  have hall := (h.append (fun _ => rfl) hcolon).appendLexes h'
  simpa using hall

theorem lexes_dict {entries : List (String × String)} {lss : List (List Lexeme)}
    (h : List.Forall₂ (fun entry ls => Lexes (entry.1 ++ ": " ++ entry.2).toList ls) entries lss) :
    Lexes (Fragment.dict entries).toList (mark "\x7b" :: (listed lss ++ [mark "\x7d"])) := by
  have hparts : List.Forall₂ (fun part ls => Lexes part.toList ls)
      (entries.map fun e => e.1 ++ ": " ++ e.2) lss := List.forall₂_map_left_iff.2 h
  have hall := (lexes_commas hparts).between '\x7b' '\x7d' (by simp) (by simp)
  simpa [Fragment.dict, mark] using hall.lexes

/-- Two operands in parentheses with an operator between them. -/
theorem lexes_operation {symbol : String} (hop : Closed (symbol.toList ++ [' ']) [mark symbol])
    (h : Lexes t.toList ls) (h' : Lexes t'.toList ls') :
    Lexes ("(" ++ t ++ " " ++ symbol ++ " " ++ t' ++ ")").toList (parens (ls ++ mark symbol :: ls')) := by
  have hall := ((h.append (fun _ => rfl) hop.spaceBefore).appendLexes h').parens
  simpa using hall.lexes

theorem lexes_ternary (h : Lexes t.toList ls) (h' : Lexes t'.toList ls') (h'' : Lexes t''.toList ls'') :
    Lexes (Fragment.ternary t t' t'').toList (parens (ls ++ mark "?" :: (ls' ++ mark ":" :: ls''))) := by
  have hcolon : Closed [':', ' '] [mark ":"] := (closed_single (c := ':') (by simp)).space
  have hfront := (h.append (fun _ => rfl) closed_question.spaceBefore).appendLexes h'
  have hall := ((hfront.append (fun _ => rfl) hcolon.spaceBefore).appendLexes h'').parens
  simpa [Fragment.ternary] using hall.lexes

end

end ViewSync.Script
