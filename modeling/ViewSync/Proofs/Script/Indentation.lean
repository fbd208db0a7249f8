import ViewSync.Proofs.Source.Dedent
import ViewSync.Script.Render

/-!
# ViewSync.Proofs.Script.Indentation

How blocks are indented. A block cuts the text of each statement into lines and puts a tab in front of each. Where no
expression goes over the end of a line, and no line ends in a carriage return, nothing else happens to the text: a
statement inside some blocks stands there as it stands alone, with one tab for each block (`rows_fill`).
-/

namespace ViewSync

namespace Text

/-! ## rows -/

theorem rows_append_newline (cs ds : List Char) : rows (cs ++ '\n' :: ds) = rows cs ++ rows ds := by
  obtain ⟨ls, row, rfl, hls, hrow⟩ := exists_unlines_append cs
  have hall : ∀ line ∈ ls ++ [row], '\n' ∉ line := by
    simpa [or_imp, forall_and] using ⟨hls, hrow⟩
  have htext : unlines ls ++ row ++ '\n' :: ds = unlines (ls ++ [row]) ++ ds := by
    simp [unlines]
  rw [htext, rows_unlines_append hall, rows_unlines_append hls, rows_of_row hrow]

/-- A text inside a row of another text is inside that text. -/
theorem isInfix_of_row {cs piece row : List Char} (hrow : row ∈ rows cs) (hpiece : piece <:+: row) :
    piece <:+: cs := by
  refine hpiece.trans ?_
  obtain ⟨ls, last, rfl, hls, hlast⟩ := exists_unlines_append cs
  rw [rows_unlines_append hls, rows_of_row hlast, List.mem_append, List.mem_singleton] at hrow
  obtain hrow | rfl := hrow
  · obtain ⟨before, after, rfl⟩ := List.append_of_mem hrow
    exact ⟨unlines before, '\n' :: unlines after ++ last, by simp [unlines]⟩
  · exact (List.suffix_append _ _).isInfix

/-- A text without a newline that is inside another one is inside a row of it. -/
theorem exists_row_of_isInfix {cs piece : List Char} (h : '\n' ∉ piece) (hpiece : piece <:+: cs) :
    ∃ row ∈ rows cs, piece <:+: row := by
  obtain ⟨before, after, rfl⟩ := hpiece
  obtain ⟨ls, front, rfl, hls, hfront⟩ := exists_unlines_append before
  rw [List.append_assoc, List.append_assoc, rows_unlines_append hls, ← List.append_assoc]
  have hrow : '\n' ∉ front ++ piece := by simp [hfront, h]
  by_cases hafter : '\n' ∈ after
  · obtain ⟨more, rest, rfl, hmore⟩ := List.eq_append_cons_of_mem hafter
    rw [← List.append_assoc, rows_append_newline]
    have hone : '\n' ∉ front ++ piece ++ more := by simp [hfront, h, hmore]
    rw [rows_of_row hone]
    exact ⟨front ++ piece ++ more, by simp, front, more, rfl⟩
  · have hone : '\n' ∉ front ++ piece ++ after := by simp [hfront, h, hafter]
    rw [rows_of_row hone]
    exact ⟨front ++ piece ++ after, by simp, front, after, rfl⟩

/-- Every row ends with a character, and that is no carriage return. -/
def Tidy (cs : List Char) : Prop :=
  ∀ row ∈ rows cs, ∃ c ∈ row.getLast?, c ≠ '\r'

theorem tidy_append_newline {cs ds : List Char} : Tidy (cs ++ '\n' :: ds) ↔ Tidy cs ∧ Tidy ds := by
  rw [Tidy, rows_append_newline, List.forall_mem_append, Tidy, Tidy]

/-- A text on one line that does not end with a carriage return. -/
theorem tidy_concat {cs : List Char} (h : '\n' ∉ cs) {c : Char} (hline : c ≠ '\n') (hreturn : c ≠ '\r') :
    Tidy (cs ++ [c]) := by
  have hrow : '\n' ∉ cs ++ [c] := by simp [h, Ne.symm hline]
  rw [Tidy, rows_of_row hrow]
  simp [hreturn]

/-- The lines of a tidy text are its rows. -/
theorem lines_of_tidy {cs : List Char} (h : Tidy cs) : lines cs = rows cs := by
  obtain ⟨ls, row, rfl, hls, hrow⟩ := exists_unlines_append cs
  rw [Tidy, rows_unlines_append hls, rows_of_row hrow, List.forall_mem_append, List.forall_mem_singleton] at h
  obtain ⟨htidy, c, hc, -⟩ := h
  have hne : row ≠ [] := by
    rintro rfl
    cases hc
  have hkept : ls.map withoutReturn = ls := by
    refine (List.map_congr_left fun line hline => ?_).trans (List.map_id ls)
    obtain ⟨d, hd, hreturn⟩ := htidy line hline
    rw [Option.mem_def] at hd
    rw [withoutReturn, hd, if_neg (by simpa using hreturn), id]
  rw [lines_unlines_append hls hrow, rows_unlines_append hls, rows_of_row hrow, hkept, if_neg hne]

theorem not_mem_rows {cs row : List Char} (h : row ∈ rows cs) : '\n' ∉ row := by
  obtain ⟨ls, last, rfl, hls, hlast⟩ := exists_unlines_append cs
  rw [rows_unlines_append hls, rows_of_row hlast, List.mem_append, List.mem_singleton] at h
  obtain h | rfl := h
  · exact hls row h
  · exact hlast

/-- A newline with some lines behind it ends with a newline. -/
theorem newline_unlines (ls : List (List Char)) : ∃ cs, '\n' :: unlines ls = cs ++ ['\n'] := by
  obtain rfl | ⟨front, line, rfl⟩ := ls.eq_nil_or_concat
  · exact ⟨[], rfl⟩
  · exact ⟨'\n' :: unlines front ++ line, by simp [unlines]⟩

end Text

namespace Script

open Text

/-! ## pieces on one line -/

/-- A text on one line. -/
def OneLine (text : String) : Prop := '\n' ∉ text.toList

instance (text : String) : Decidable (OneLine text) := inferInstanceAs (Decidable (¬ _))

@[simp] theorem oneLine_append (a b : String) : OneLine (a ++ b) ↔ OneLine a ∧ OneLine b := by
  simp [OneLine]

theorem commas_cons {part : String} {parts : List String} (h : parts ≠ []) :
    Fragment.commas (part :: parts) = part ++ ", " ++ Fragment.commas parts := by
  obtain ⟨next, rest, rfl⟩ := List.exists_cons_of_ne_nil h
  rw [← String.toList_inj, Fragment.commas, Fragment.commas]
  simp [String.toList_intercalate]

theorem commas_singleton (part : String) : Fragment.commas [part] = part := by
  simp [Fragment.commas]

theorem oneLine_commas {parts : List String} (h : ∀ part ∈ parts, OneLine part) : OneLine (Fragment.commas parts) := by
  induction parts with
  | nil => decide
  | cons part rest ih =>
      obtain ⟨hpart, hrest⟩ := List.forall_mem_cons.1 h
      by_cases hnil : rest = []
      · rwa [hnil, commas_singleton]
      · have hcomma : OneLine ", " := by decide
        simpa [commas_cons hnil, hpart, hcomma] using ih hrest

/-! ## blocks of texts -/

/-- The lines of some texts inside a block. -/
def tabbed (texts : List String) : List (List Char) :=
  texts.flatMap fun text => (Text.lines text.toList).map ('\t' :: ·)

theorem flatMap_indented (texts : List String) : texts.flatMap Fragment.indented = unlines (tabbed texts) := by
  rw [unlines, tabbed, List.flatMap_assoc]
  refine congrArg (texts.flatMap ·) (funext fun text => ?_)
  rw [List.flatMap_map, Fragment.indented]

theorem toList_block (body : List String) :
    (Fragment.block body).toList = '\x7b' :: '\n' :: (unlines (tabbed body) ++ ['\x7d']) := by
  rw [Fragment.block, String.toList_ofList, flatMap_indented]
  rfl

theorem tabbed_append (texts more : List String) : tabbed (texts ++ more) = tabbed texts ++ tabbed more :=
  List.flatMap_append

theorem tabbed_cons {text : String} (h : Tidy text.toList) (more : List String) :
    tabbed (text :: more) = (rows text.toList).map ('\t' :: ·) ++ tabbed more := by
  rw [tabbed, List.flatMap_cons, lines_of_tidy h, tabbed]

/-- A text stands inside another one with a tab in front of every row, and nothing else depends on it. -/
def Hosts (f : String → String) : Prop :=
  ∃ above below, ∀ text : String, Tidy text.toList →
    rows (f text).toList = above ++ (rows text.toList).map ('\t' :: ·) ++ below

/-- A statement of a block. -/
theorem hosts_block (front back : String) (before after : List String) :
    Hosts fun text => front ++ Fragment.block (before ++ text :: after) ++ back := by
  obtain ⟨cs, hcs⟩ := newline_unlines (tabbed before)
  refine ⟨rows (front.toList ++ '\x7b' :: cs), rows (unlines (tabbed after) ++ '\x7d' :: back.toList),
    fun text htext => ?_⟩
  have hnone : ∀ row ∈ (rows text.toList).map ('\t' :: ·), '\n' ∉ row := by
    intro row hrow
    obtain ⟨inner, hinner, rfl⟩ := List.mem_map.1 hrow
    simp [not_mem_rows hinner]
  have hfront : front.toList ++ '\x7b' :: '\n' :: unlines (tabbed before) =
      (front.toList ++ '\x7b' :: cs) ++ ['\n'] := by
    rw [hcs]
    simp
  have hall : (front ++ Fragment.block (before ++ text :: after) ++ back).toList =
      (front.toList ++ '\x7b' :: cs) ++ '\n' :: (unlines ((rows text.toList).map ('\t' :: ·)) ++
        (unlines (tabbed after) ++ '\x7d' :: back.toList)) := by
    have hstart := congrArg (· ++ (unlines ((rows text.toList).map ('\t' :: ·)) ++
        (unlines (tabbed after) ++ '\x7d' :: back.toList))) hfront
    simpa [toList_block, tabbed_append, tabbed_cons htext, unlines_append] using hstart
  rw [hall, rows_append_newline, rows_unlines_append hnone, List.append_assoc]

/-- What stands inside a text stands inside the one that it is hosted by. -/
theorem Hosts.isInfix {f : String → String} (h : Hosts f) {text : String} (htext : Tidy text.toList)
    {piece : List Char} (hpiece : '\n' ∉ piece) (hinside : piece <:+: text.toList) : piece <:+: (f text).toList := by
  obtain ⟨above, below, hrows⟩ := h
  obtain ⟨row, hrow, hin⟩ := exists_row_of_isInfix hpiece hinside
  refine @isInfix_of_row _ _ ('\t' :: row) ?_ (hin.trans (List.suffix_cons _ _).isInfix)
  rw [hrows text htext]
  simp [hrow]

/-- A block in a tidy text. -/
theorem tidy_block {front back : String} (hfront : OneLine front) {body : List String}
    (hbody : ∀ text ∈ body, Tidy text.toList) (hback : Tidy ('\x7d' :: back.toList)) :
    Tidy (front ++ Fragment.block body ++ back).toList := by
  have hrows : ∀ line ∈ tabbed body, ∃ text ∈ body, ∃ row ∈ rows text.toList, line = '\t' :: row := by
    intro line hline
    obtain ⟨text, htext, hline⟩ := List.mem_flatMap.1 hline
    obtain ⟨row, hrow, rfl⟩ := List.mem_map.1 hline
    exact ⟨text, htext, row, lines_of_tidy (hbody text htext) ▸ hrow, rfl⟩
  have hnone : ∀ line ∈ tabbed body, '\n' ∉ line := by
    intro line hline
    obtain ⟨text, -, row, hrow, rfl⟩ := hrows line hline
    simp [not_mem_rows hrow]
  have hall : (front ++ Fragment.block body ++ back).toList =
      (front.toList ++ ['\x7b']) ++ '\n' :: (unlines (tabbed body) ++ '\x7d' :: back.toList) := by
    simp [toList_block]
  rw [hall, tidy_append_newline]
  refine ⟨tidy_concat hfront (by decide) (by decide), ?_⟩
  rw [Tidy, rows_unlines_append hnone, List.forall_mem_append]
  refine ⟨fun line hline => ?_, hback⟩
  obtain ⟨text, htext, row, hrow, rfl⟩ := hrows line hline
  obtain ⟨c, hc, hreturn⟩ := hbody text htext row hrow
  exact ⟨c, by simp_all [List.getLast?_cons], hreturn⟩

/-! ## branches -/

theorem ifChain_singleton (condition : String) (body : List String) (orelse : Option (List String)) :
    Fragment.ifChain [(condition, body)] orelse =
      "if (" ++ condition ++ ") " ++ Fragment.block body ++ (orelse.map Fragment.elseBranch).getD "" := by
  simp [Fragment.ifChain, Fragment.branch]

theorem ifChain_cons {branches : List (String × List String)} (h : branches ≠ []) (condition : String)
    (body : List String) (orelse : Option (List String)) :
    Fragment.ifChain ((condition, body) :: branches) orelse =
      "if (" ++ condition ++ ") " ++ Fragment.block body ++ (" else " ++ Fragment.ifChain branches orelse) := by
  obtain ⟨next, rest, rfl⟩ := List.exists_cons_of_ne_nil h
  rw [← String.toList_inj]
  simp [Fragment.ifChain, Fragment.branch, String.toList_intercalate]

/-- An `if` is made of one branch and of what stands around it. -/
theorem exists_ifChain (earlier later : List (String × List String)) (orelse : Option (List String)) :
    ∃ front back, ∀ condition body, Fragment.ifChain (earlier ++ (condition, body) :: later) orelse =
      front ++ "if (" ++ condition ++ ") " ++ Fragment.block body ++ back := by
  induction earlier with
  | nil =>
      by_cases hlater : later = []
      · exact ⟨"", _, fun condition body => hlater ▸ ifChain_singleton condition body orelse⟩
      · exact ⟨"", _, fun condition body => ifChain_cons hlater condition body orelse⟩
  | cons branch earlier ih =>
      obtain ⟨front, back, hchain⟩ := ih
      refine ⟨"if (" ++ branch.1 ++ ") " ++ Fragment.block branch.2 ++ " else " ++ front, back,
        fun condition body => ?_⟩
      rw [List.cons_append, ifChain_cons (by simp), hchain]
      simp [String.append_assoc]

theorem tidy_ifChain {front : String} (hfront : OneLine front) {branches : List (String × List String)}
    (hne : branches ≠ []) (hconditions : ∀ branch ∈ branches, OneLine branch.1)
    (hbodies : ∀ branch ∈ branches, ∀ text ∈ branch.2, Tidy text.toList) {orelse : Option (List String)}
    (horelse : ∀ body ∈ orelse, ∀ text ∈ body, Tidy text.toList) :
    Tidy (front ++ Fragment.ifChain branches orelse).toList := by
  induction branches generalizing front with
  | nil => exact absurd rfl hne
  | cons branch rest ih =>
      obtain ⟨hcondition, hconditions⟩ := List.forall_mem_cons.1 hconditions
      obtain ⟨hbody, hbodies⟩ := List.forall_mem_cons.1 hbodies
      have hopen : OneLine (front ++ ("if (" ++ branch.1 ++ ") ")) := by
        have hword : OneLine "if (" := by decide
        have hclose : OneLine ") " := by decide
        simp [hfront, hcondition, hword, hclose]
      have hclose : OneLine "\x7d else " := by decide
      by_cases hrest : rest = []
      · have hback : Tidy ('\x7d' :: ((orelse.map Fragment.elseBranch).getD "").toList) := by
          cases orelse with
          | none => exact @tidy_concat [] (by simp) _ (by decide) (by decide)
          | some body =>
              have hlast := @tidy_block _ "" hclose _ (horelse body rfl)
                (@tidy_concat [] (by simp) _ (by decide) (by decide))
              simpa [Fragment.elseBranch] using hlast
        have hall := tidy_block hopen hbody hback
        rw [hrest, ifChain_singleton]
        simpa using hall
      · have hback : Tidy ('\x7d' :: (" else " ++ Fragment.ifChain rest orelse).toList) := by
          simpa using ih hclose hrest hconditions hbodies
        have hall := tidy_block hopen hbody hback
        rw [ifChain_cons hrest]
        simpa using hall

/-! ## statements -/

namespace Stmt

theorem renderBlock_eq (body : List Stmt) : renderBlock body = body.map Stmt.render := by
  induction body with
  | nil => rfl
  | cons stmt rest ih => rw [renderBlock, ih, List.map_cons]

theorem renderMethods_eq (methods : List (Signature × List Stmt)) : renderMethods methods =
    methods.map fun m => Fragment.method m.1.name m.1.params (renderBlock m.2) := by
  induction methods with
  | nil => rfl
  | cons m rest ih => rw [renderMethods, ih, List.map_cons]

theorem renderBranches_eq (branches : List (Expr × List Stmt)) :
    renderBranches branches = branches.map fun b => (b.1.render, renderBlock b.2) := by
  induction branches with
  | nil => rfl
  | cons b rest ih => rw [renderBranches, ih, List.map_cons]

theorem renderElse_eq (orelse : Option (List Stmt)) : renderElse orelse = orelse.map renderBlock := by
  cases orelse <;> rfl

end Stmt

/-- An `if` is made of one branch and of what stands around it. -/
theorem exists_branch (earlier later : List (Expr × List Stmt)) (orelse : Option (List Stmt)) :
    ∃ front back, ∀ condition body, (Stmt.ifChain (earlier ++ (condition, body) :: later) orelse).render =
      front ++ "if (" ++ condition.render ++ ") " ++ Fragment.block (Stmt.renderBlock body) ++ back := by
  obtain ⟨front, back, hchain⟩ := exists_ifChain (Stmt.renderBranches earlier) (Stmt.renderBranches later)
    (Stmt.renderElse orelse)
  refine ⟨front, back, fun condition body => ?_⟩
  rw [← hchain, Stmt.render]
  simp [Stmt.renderBranches_eq]

/-- An `if` is made of its last block and of what stands in front. -/
theorem exists_last (branches : List (Expr × List Stmt)) :
    ∃ front, ∀ body, (Stmt.ifChain branches (some body)).render = front ++ Fragment.block (Stmt.renderBlock body) := by
  refine ⟨Fragment.ifChain (Stmt.renderBranches branches) none ++ " else ", fun body => ?_⟩
  simp [Stmt.render, Stmt.renderElse, Fragment.ifChain, Fragment.elseBranch, String.append_assoc]

/-- A signature on one line. -/
structure Signature.Flat (signature : Signature) : Prop where
  name : OneLine signature.name
  params : ∀ param ∈ signature.params, OneLine param

/-- A statement in which only blocks go over the end of a line. -/
inductive Stmt.Flat : Stmt → Prop
  | function {signature : Signature} {body : List Stmt} (signature_flat : signature.Flat)
      (body_flat : ∀ stmt ∈ body, Flat stmt) : Flat (.function signature body)
  | class_ {name : String} {methods : List (Signature × List Stmt)} (name_flat : OneLine name)
      (signatures_flat : ∀ m ∈ methods, m.1.Flat) (bodies_flat : ∀ m ∈ methods, ∀ stmt ∈ m.2, Flat stmt) :
      Flat (.class_ name methods)
  | assign {declared : Bool} {target value : Expr} (target_flat : OneLine target.render)
      (value_flat : OneLine value.render) : Flat (.assign declared target value)
  | addAssign {target value : Expr} (target_flat : OneLine target.render) (value_flat : OneLine value.render) :
      Flat (.addAssign target value)
  | ifChain {branches : List (Expr × List Stmt)} {orelse : Option (List Stmt)} (branches_ne : branches ≠ [])
      (conditions_flat : ∀ branch ∈ branches, OneLine branch.1.render)
      (bodies_flat : ∀ branch ∈ branches, ∀ stmt ∈ branch.2, Flat stmt)
      (orelse_flat : ∀ body ∈ orelse, ∀ stmt ∈ body, Flat stmt) : Flat (.ifChain branches orelse)
  | for_ {declared : Bool} {binding : Binding} {iteration : Iteration} {source : Expr} {body : List Stmt}
      (binding_flat : OneLine binding.render) (source_flat : OneLine source.render)
      (body_flat : ∀ stmt ∈ body, Flat stmt) : Flat (.for_ declared binding iteration source body)
  | while_ {condition : Expr} {body : List Stmt} (condition_flat : OneLine condition.render)
      (body_flat : ∀ stmt ∈ body, Flat stmt) : Flat (.while_ condition body)
  | return_ {value : Option Expr} (value_flat : ∀ e ∈ value, OneLine e.render) : Flat (.return_ value)
  | delete {target : Expr} (target_flat : OneLine target.render) : Flat (.delete target)
  | pass : Flat .pass
  | expr {value : Expr} (value_flat : OneLine value.render) : Flat (.expr value)

/-- What stands in front of the block of a loop. -/
def loopHead (iteration : Iteration) (binding source : String) : String :=
  match iteration with
  | .values => "for (" ++ binding ++ " of " ++ source ++ ") "
  | .keys => "for (" ++ binding ++ " in " ++ source ++ ") "
  | .entries => "for (" ++ binding ++ " of Object.entries(" ++ source ++ ")) "

theorem loopText_eq (iteration : Iteration) (binding source : String) (body : List String) :
    loopText iteration binding source body = loopHead iteration binding source ++ Fragment.block body := by
  cases iteration <;> rfl

theorem oneLine_loopHead (iteration : Iteration) {binding source : String} (hbinding : OneLine binding)
    (hsource : OneLine source) : OneLine (loopHead iteration binding source) := by
  cases iteration <;> simp [loopHead, hbinding, hsource] <;> decide

theorem oneLine_declaredText (declared : Bool) {text : String} (h : OneLine text) :
    OneLine (declaredText declared text) := by
  cases declared
  · exact h
  · have hword : OneLine "let " := by decide
    simp [declaredText, Fragment.declare, h, hword]

/-- What stands in front of the block of a function. -/
def Signature.head (signature : Signature) : String :=
  signature.name ++ "(" ++ Fragment.commas signature.params ++ ") "

theorem Signature.Flat.head {signature : Signature} (h : signature.Flat) : OneLine signature.head := by
  have hopen : OneLine "(" := by decide
  have hclose : OneLine ") " := by decide
  simp [Signature.head, h.name, oneLine_commas h.params, hopen, hclose]

theorem method_eq (signature : Signature) (body : List String) :
    Fragment.method signature.name signature.params body = signature.head ++ Fragment.block body := rfl

theorem function_eq (signature : Signature) (body : List String) :
    Fragment.function signature.name signature.params body =
      "function " ++ signature.head ++ Fragment.block body := by
  rw [Fragment.function, method_eq, String.append_assoc]

/-- A text on one line with a semicolon. -/
theorem tidy_semicolon {text : String} (h : OneLine text) : Tidy (text ++ ";").toList := by
  rw [String.toList_append]
  exact tidy_concat h (by decide) (by decide)

/-- A block with a text on one line in front. -/
theorem tidy_headed {head : String} (hhead : OneLine head) {body : List String}
    (hbody : ∀ text ∈ body, Tidy text.toList) : Tidy (head ++ Fragment.block body).toList := by
  have hclose : Tidy ['\x7d'] := @tidy_concat [] (by simp) _ (by decide) (by decide)
  simpa using @tidy_block _ "" hhead _ hbody hclose

theorem tidy_renderBlock {body : List Stmt} (h : ∀ stmt ∈ body, Tidy stmt.render.toList) :
    ∀ text ∈ Stmt.renderBlock body, Tidy text.toList := by
  rw [Stmt.renderBlock_eq]
  exact List.forall_mem_map.2 h

/-- The text of a flat statement is tidy. -/
theorem Stmt.Flat.tidy {stmt : Stmt} (h : stmt.Flat) : Tidy stmt.render.toList := by
  induction h with
  | function hsignature hbody ih =>
      have hword : OneLine "function " := by decide
      rw [Stmt.render, function_eq]
      exact tidy_headed ((oneLine_append _ _).2 ⟨hword, hsignature.head⟩) (tidy_renderBlock ih)
  | @class_ name methods hname hsignatures hbodies ih =>
      have hword : OneLine "class " := by decide
      have hspace : OneLine " " := by decide
      rw [Stmt.render, Fragment.classDef, renderMethods_eq]
      refine tidy_headed (by simp [hword, hname, hspace]) (List.forall_mem_map.2 fun m hm => ?_)
      rw [method_eq]
      exact tidy_headed (hsignatures m hm).head (tidy_renderBlock (ih m hm))
  | @assign declared target value htarget hvalue =>
      have hsign : OneLine " = " := by decide
      exact tidy_semicolon (by simp [oneLine_declaredText declared htarget, hsign, hvalue])
  | addAssign htarget hvalue =>
      have hsign : OneLine " += " := by decide
      exact tidy_semicolon (by simp [htarget, hsign, hvalue])
  | @ifChain branches orelse hne hconditions hbodies horelse ih ihElse =>
      have hall : Tidy ("" ++ Fragment.ifChain (renderBranches branches) (renderElse orelse)).toList := by
        rw [renderBranches_eq, renderElse_eq]
        refine tidy_ifChain (by decide) (by simpa using hne) (List.forall_mem_map.2 hconditions)
          (List.forall_mem_map.2 fun branch hbranch => tidy_renderBlock (ih branch hbranch)) ?_
        intro texts htexts
        obtain ⟨body, hbody, rfl⟩ := Option.map_eq_some_iff.1 htexts
        exact tidy_renderBlock (ihElse body hbody)
      simpa [Stmt.render] using hall
  | @for_ declared binding iteration source body hbinding hsource hbody ih =>
      rw [Stmt.render, loopText_eq]
      exact tidy_headed (oneLine_loopHead _ (oneLine_declaredText _ hbinding) hsource) (tidy_renderBlock ih)
  | while_ hcondition hbody ih =>
      have hword : OneLine "while (" := by decide
      have hclose : OneLine ") " := by decide
      exact tidy_headed (by simp [hword, hcondition, hclose]) (tidy_renderBlock ih)
  | @return_ value hvalue =>
      cases value with
      | none => exact @tidy_semicolon "return" (by decide)
      | some e =>
          have hword : OneLine "return " := by decide
          exact tidy_semicolon (by simp [hword, hvalue e rfl])
  | delete htarget =>
      have hword : OneLine "delete " := by decide
      exact tidy_semicolon (by simp [hword, htarget])
  | pass =>
      have hcomment : OneLine "// pas" := by decide
      exact tidy_concat (c := 's') hcomment (by decide) (by decide)
  | expr hvalue => exact tidy_semicolon hvalue

/-! ## a statement inside blocks -/

/-- A statement with a place for a statement inside some of its blocks. -/
inductive Context where
  | here
  | function (signature : Signature) (before : List Stmt) (inner : Context) (after : List Stmt)
  /-- A method of a class, between others. -/
  | method (name : String) (earlier : List (Signature × List Stmt)) (signature : Signature) (before : List Stmt)
      (inner : Context) (after : List Stmt) (later : List (Signature × List Stmt))
  /-- A branch of an `if`, between others. -/
  | branch (earlier : List (Expr × List Stmt)) (condition : Expr) (before : List Stmt) (inner : Context)
      (after : List Stmt) (later : List (Expr × List Stmt)) (orelse : Option (List Stmt))
  /-- The last block of an `if`. -/
  | orelse (branches : List (Expr × List Stmt)) (before : List Stmt) (inner : Context) (after : List Stmt)
  | for_ (declared : Bool) (binding : Binding) (iteration : Iteration) (source : Expr) (before : List Stmt)
      (inner : Context) (after : List Stmt)
  | while_ (condition : Expr) (before : List Stmt) (inner : Context) (after : List Stmt)

namespace Context

/-- The number of blocks around the place. A method stands in the block of its class. -/
def depth : Context → Nat
  | .here => 0
  | .function _ _ inner _ => inner.depth + 1
  | .method _ _ _ _ inner _ _ => inner.depth + 2
  | .branch _ _ _ inner _ _ _ => inner.depth + 1
  | .orelse _ _ inner _ => inner.depth + 1
  | .for_ _ _ _ _ _ inner _ => inner.depth + 1
  | .while_ _ _ inner _ => inner.depth + 1

/-- The statement with another one in its place. -/
def fill (stmt : Stmt) : Context → Stmt
  | .here => stmt
  | .function signature before inner after => .function signature (before ++ inner.fill stmt :: after)
  | .method name earlier signature before inner after later =>
    .class_ name (earlier ++ (signature, before ++ inner.fill stmt :: after) :: later)
  | .branch earlier condition before inner after later last =>
    .ifChain (earlier ++ (condition, before ++ inner.fill stmt :: after) :: later) last
  | .orelse branches before inner after => .ifChain branches (some (before ++ inner.fill stmt :: after))
  | .for_ declared binding iteration source before inner after =>
    .for_ declared binding iteration source (before ++ inner.fill stmt :: after)
  | .while_ condition before inner after => .while_ condition (before ++ inner.fill stmt :: after)

variable {stmt other : Stmt}

/-- What stands inside a flat statement is flat, and any flat statement may stand there. -/
theorem flat_fill {C : Context} (h : (C.fill stmt).Flat) : stmt.Flat ∧ (other.Flat → (C.fill other).Flat) := by
  have hmiddle : ∀ {before after : List Stmt} {inner : Context}, (∀ s ∈ before ++ inner.fill stmt :: after, s.Flat) →
      (inner.fill stmt).Flat ∧ ((inner.fill other).Flat → ∀ s ∈ before ++ inner.fill other :: after, s.Flat) := by
    intro before after inner hall
    rw [List.forall_mem_append, List.forall_mem_cons] at hall
    exact ⟨hall.2.1, fun hother => List.forall_mem_append.2 ⟨hall.1, List.forall_mem_cons.2 ⟨hother, hall.2.2⟩⟩⟩
  induction C with
  | here => exact ⟨h, id⟩
  | function signature before inner after ih =>
      cases h with
      | function hsignature hbody =>
          obtain ⟨hinner, hback⟩ := hmiddle hbody
          obtain ⟨hstmt, hother⟩ := ih hinner
          exact ⟨hstmt, fun ho => .function hsignature (hback (hother ho))⟩
  | method name earlier signature before inner after later ih =>
      cases h with
      | class_ hname hsignatures hbodies =>
          rw [List.forall_mem_append, List.forall_mem_cons] at hsignatures hbodies
          obtain ⟨hinner, hback⟩ := hmiddle hbodies.2.1
          obtain ⟨hstmt, hother⟩ := ih hinner
          refine ⟨hstmt, fun ho => .class_ hname ?_ ?_⟩
          · exact List.forall_mem_append.2 ⟨hsignatures.1, List.forall_mem_cons.2 hsignatures.2⟩
          · exact List.forall_mem_append.2 ⟨hbodies.1, List.forall_mem_cons.2 ⟨hback (hother ho), hbodies.2.2⟩⟩
  | branch earlier condition before inner after later orelse ih =>
      cases h with
      | ifChain hne hconditions hbodies horelse =>
          rw [List.forall_mem_append, List.forall_mem_cons] at hconditions hbodies
          obtain ⟨hinner, hback⟩ := hmiddle hbodies.2.1
          obtain ⟨hstmt, hother⟩ := ih hinner
          refine ⟨hstmt, fun ho => .ifChain (by simp) ?_ ?_ horelse⟩
          · exact List.forall_mem_append.2 ⟨hconditions.1, List.forall_mem_cons.2 hconditions.2⟩
          · exact List.forall_mem_append.2 ⟨hbodies.1, List.forall_mem_cons.2 ⟨hback (hother ho), hbodies.2.2⟩⟩
  | orelse branches before inner after ih =>
      cases h with
      | ifChain hne hconditions hbodies horelse =>
          obtain ⟨hinner, hback⟩ := hmiddle (horelse _ rfl)
          obtain ⟨hstmt, hother⟩ := ih hinner
          refine ⟨hstmt, fun ho => .ifChain hne hconditions hbodies ?_⟩
          rintro _ ⟨⟩
          exact hback (hother ho)
  | for_ declared binding iteration source before inner after ih =>
      cases h with
      | for_ hbinding hsource hbody =>
          obtain ⟨hinner, hback⟩ := hmiddle hbody
          obtain ⟨hstmt, hother⟩ := ih hinner
          exact ⟨hstmt, fun ho => .for_ hbinding hsource (hback (hother ho))⟩
  | while_ condition before inner after ih =>
      cases h with
      | while_ hcondition hbody =>
          obtain ⟨hinner, hback⟩ := hmiddle hbody
          obtain ⟨hstmt, hother⟩ := ih hinner
          exact ⟨hstmt, fun ho => .while_ hcondition (hback (hother ho))⟩

/-- The rows of a statement stand in a text, each behind some tabs, and nothing else depends on the statement. -/
def Shows (depth : Nat) (text : Stmt → String) : Prop :=
  ∃ above below, ∀ stmt : Stmt, stmt.Flat →
    rows (text stmt).toList = above ++ (rows stmt.render.toList).map (List.replicate depth '\t' ++ ·) ++ below

/-- One more block around a statement. -/
theorem Shows.hosted {depth : Nat} {text : Stmt → String} (h : Shows depth text)
    (htidy : ∀ stmt : Stmt, stmt.Flat → Tidy (text stmt).toList) {f : String → String} (hf : Hosts f) :
    Shows (depth + 1) fun stmt => f (text stmt) := by
  obtain ⟨above, below, hrows⟩ := h
  obtain ⟨front, back, hhosts⟩ := hf
  refine ⟨front ++ above.map ('\t' :: ·), below.map ('\t' :: ·) ++ back, fun stmt hstmt => ?_⟩
  rw [hhosts _ (htidy stmt hstmt), hrows stmt hstmt]
  simp [List.replicate_succ]

/-- A block of statements around a place. -/
theorem Shows.block {inner : Context} (h : Shows inner.depth fun other => (inner.fill other).render)
    (hinner : (inner.fill stmt).Flat) (front back : String) (before after : List Stmt) :
    Shows (inner.depth + 1) fun other =>
      front ++ Fragment.block (Stmt.renderBlock (before ++ inner.fill other :: after)) ++ back := by
  have hall := h.hosted (fun other ho => ((flat_fill hinner).2 ho).tidy)
    (hosts_block front back (Stmt.renderBlock before) (Stmt.renderBlock after))
  simpa [Stmt.renderBlock_eq] using hall

/-- A flat statement inside some blocks stands there as it stands alone, with a tab for each block. -/
theorem rows_fill {C : Context} (h : (C.fill stmt).Flat) : Shows C.depth fun other => (C.fill other).render := by
  induction C with
  | here => exact ⟨[], [], fun other _ => by simp [fill, depth]⟩
  | function signature before inner after ih =>
      cases h with
      | function hsignature hbody =>
          have hinner := hbody (inner.fill stmt) (by simp)
          simpa [fill, depth, Stmt.render, function_eq] using
            (ih hinner).block hinner ("function " ++ signature.head) "" before after
  | method name earlier signature before inner after later ih =>
      cases h with
      | class_ hname hsignatures hbodies =>
          have hsignature := hsignatures (signature, before ++ inner.fill stmt :: after) (by simp)
          have hbody := hbodies (signature, before ++ inner.fill stmt :: after) (by simp)
          have hinner := hbody (inner.fill stmt) (by simp)
          have hmethod := (ih hinner).block hinner signature.head "" before after
          have hclass := hmethod.hosted (fun other ho => ?_)
            (hosts_block ("class " ++ name ++ " ") "" (Stmt.renderMethods earlier) (Stmt.renderMethods later))
          · simpa [fill, depth, Stmt.render, Fragment.classDef, Stmt.renderMethods_eq, method_eq] using hclass
          · rw [String.append_empty]
            refine tidy_headed hsignature.head (tidy_renderBlock fun s hs => ?_)
            rw [List.mem_append, List.mem_cons] at hs
            obtain hs | rfl | hs := hs
            · exact (hbody s (by simp [hs])).tidy
            · exact ((flat_fill hinner).2 ho).tidy
            · exact (hbody s (by simp [hs])).tidy
  | branch earlier condition before inner after later last ih =>
      cases h with
      | ifChain hne hconditions hbodies horelse =>
          have hbody := hbodies (condition, before ++ inner.fill stmt :: after) (by simp)
          have hinner := hbody (inner.fill stmt) (by simp)
          obtain ⟨front, back, hchain⟩ := exists_branch earlier later last
          simpa [fill, depth, hchain] using
            (ih hinner).block hinner (front ++ "if (" ++ condition.render ++ ") ") back before after
  | orelse branches before inner after ih =>
      cases h with
      | ifChain hne hconditions hbodies horelse =>
          have hinner := horelse _ rfl (inner.fill stmt) (by simp)
          obtain ⟨front, hlast⟩ := exists_last branches
          simpa [fill, depth, hlast] using (ih hinner).block hinner front "" before after
  | for_ declared binding iteration source before inner after ih =>
      cases h with
      | for_ hbinding hsource hbody =>
          have hinner := hbody (inner.fill stmt) (by simp)
          simpa [fill, depth, Stmt.render, loopText_eq] using (ih hinner).block hinner
            (loopHead iteration (declaredText declared binding.render) source.render) "" before after
  | while_ condition before inner after ih =>
      cases h with
      | while_ hcondition hbody =>
          have hinner := hbody (inner.fill stmt) (by simp)
          simpa [fill, depth, Stmt.render, Fragment.whileLoop] using
            (ih hinner).block hinner ("while (" ++ condition.render ++ ") ") "" before after

end Context

end Script

end ViewSync
