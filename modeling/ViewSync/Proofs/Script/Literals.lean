import ViewSync.Proofs.Json.Leaves
import ViewSync.Proofs.Script.Indentation
import ViewSync.Proofs.Script.Lexemes

/-!
# ViewSync.Proofs.Script.Literals

String literals in the texts of scripts. A literal has no control characters, so it stands on one line whatever the
string is. The text of an expression holds the literals of its parts (`Holds`), and a statement those of its
expressions and of the statements in its blocks (`Carries`): a block puts tabs in front of its lines and nothing else.
-/

namespace ViewSync

/-! ## control characters -/

namespace Json

theorem le_of_isHexDigit {c : Char} (h : Text.isHexDigit c = true) : 0x20 ≤ c.toNat := by
  unfold Text.isHexDigit Text.hexValue? at h
  simp only [Char.le_def, UInt32.le_iff_toNat_le] at h
  change 0x20 ≤ c.val.toNat
  split_ifs at h with hdigit hlower hupper
  · exact Nat.le_trans (by decide) hdigit.1
  · exact Nat.le_trans (by decide) hlower.1
  · exact Nat.le_trans (by decide) hupper.1
  · cases h

/-- What stands for a character in a string is no control character. -/
theorem le_of_mem_escapeChar {c d : Char} (h : d ∈ escapeChar c) : 0x20 ≤ d.toNat := by
  have hpair : ∀ a b : Char, 0x20 ≤ a.toNat ∧ 0x20 ≤ b.toNat → d ∈ [a, b] → 0x20 ≤ d.toNat := by
    intro a b hab hd
    simp only [List.mem_cons, List.not_mem_nil, or_false] at hd
    obtain rfl | rfl := hd
    · exact hab.1
    · exact hab.2
  unfold escapeChar at h
  split_ifs at h with hquote hslash hback hfeed hline hreturn htab hcontrol
  iterate 7 exact hpair _ _ (by decide) h
  · obtain h | h := List.mem_append.1 h
    · exact hpair _ _ (by decide) h
    · exact le_of_isHexDigit (Text.isHexDigit_of_mem_hexDigits h)
  · rw [List.mem_singleton.1 h]
    exact Nat.le_of_not_lt hcontrol

/-- A string literal has no control characters. -/
theorem le_of_mem_quote {s : String} {c : Char} (h : c ∈ (quote s).toList) : 0x20 ≤ c.toNat := by
  rw [quote, String.toList_ofList, List.cons_append, List.mem_cons, List.mem_append, List.mem_singleton,
    List.mem_flatMap] at h
  obtain rfl | ⟨d, -, hc⟩ | rfl := h
  · decide
  · exact le_of_mem_escapeChar hc
  · decide

end Json

namespace Script

open Text

theorem oneLine_string (s : String) : OneLine (Fragment.string s) := by
  intro h
  exact absurd (Json.le_of_mem_quote h) (by decide)

theorem oneLine_of_isNameText {text : String} (h : isNameText text = true) : OneLine text := by
  unfold isNameText at h
  intro hmem
  cases htext : text.toList with
  | nil => simp [htext] at hmem
  | cons c cs =>
      rw [htext] at h hmem
      obtain ⟨hstart, hpart⟩ := Bool.and_eq_true_iff.1 h
      obtain rfl | hmem := List.mem_cons.1 hmem
      · cases hstart
      · exact absurd (List.all_eq_true.1 hpart _ hmem) (by decide)

theorem oneLine_of_isNumberText {text : String} (h : isNumberText text.toList) : OneLine text := by
  obtain ⟨whole, fraction, htext, -, hwhole, hfraction⟩ := h
  have hdigits : ∀ {digits : List Char}, (∀ c ∈ digits, c.isDigit = true) → '\n' ∉ digits :=
    fun h hmem => absurd (h _ hmem) (by decide)
  rw [OneLine, htext, List.mem_append, not_or]
  refine ⟨hdigits hwhole, ?_⟩
  obtain rfl | ⟨digits, rfl, hfraction⟩ := hfraction
  · simp
  · simpa using hdigits hfraction

/-- A text without parts stands on one line. -/
theorem IsLeaf.oneLine {text : String} (h : IsLeaf text) : OneLine text := by
  cases h with
  | word h => exact oneLine_of_isNameText h
  | number h => exact oneLine_of_isNumberText h
  | string value h => exact h ▸ oneLine_string value

/-- A text on one line that has some literals in it as they are. -/
structure Holds (text : String) (literals : List String) : Prop where
  oneLine : OneLine text
  verbatim : ∀ s ∈ literals, (Fragment.string s).toList <:+: text.toList

/-- Several texts on one line each, some of which have some literals in them. -/
structure HoldAll (texts : List String) (literals : List String) : Prop where
  oneLine : ∀ text ∈ texts, OneLine text
  verbatim : ∀ s ∈ literals, ∃ text ∈ texts, (Fragment.string s).toList <:+: text.toList

section

variable {text text' text'' : String} {texts : List String} {ls ls' ls'' : List String}

theorem holds_plain (h : OneLine text) : Holds text [] := ⟨h, by simp⟩

theorem holds_string (s : String) : Holds (Fragment.string s) [s] :=
  ⟨oneLine_string s, List.forall_mem_singleton.2 List.infix_rfl⟩

theorem Holds.append (h : Holds text ls) (h' : Holds text' ls') : Holds (text ++ text') (ls ++ ls') where
  oneLine := (oneLine_append _ _).2 ⟨h.oneLine, h'.oneLine⟩
  verbatim := by
    rw [String.toList_append]
    exact List.forall_mem_append.2 ⟨fun s hs => (h.verbatim s hs).trans (List.prefix_append _ _).isInfix,
      fun s hs => (h'.verbatim s hs).trans (List.suffix_append _ _).isInfix⟩

theorem Holds.after (h : Holds text ls) {front : String} (hfront : OneLine front) : Holds (front ++ text) ls := by
  simpa using (holds_plain hfront).append h

theorem Holds.before (h : Holds text ls) {back : String} (hback : OneLine back) : Holds (text ++ back) ls := by
  simpa using h.append (holds_plain hback)

/-- A text with more text on the same line around it. -/
theorem Holds.between (h : Holds text ls) {front back : String} (hfront : OneLine front) (hback : OneLine back) :
    Holds (front ++ text ++ back) ls :=
  (h.after hfront).before hback

theorem Holds.of_subset (h : Holds text ls) (hsub : ls' ⊆ ls) : Holds text ls' :=
  ⟨h.oneLine, fun s hs => h.verbatim s (hsub hs)⟩

theorem holdAll_nil : HoldAll [] [] := ⟨by simp, by simp⟩

theorem Holds.cons (h : Holds text ls) (h' : HoldAll texts ls') : HoldAll (text :: texts) (ls ++ ls') where
  oneLine := List.forall_mem_cons.2 ⟨h.oneLine, h'.oneLine⟩
  verbatim := by
    refine List.forall_mem_append.2 ⟨fun s hs => ⟨text, by simp, h.verbatim s hs⟩, fun s hs => ?_⟩
    obtain ⟨other, hother, hin⟩ := h'.verbatim s hs
    exact ⟨other, by simp [hother], hin⟩

theorem isInfix_commas {part : String} (h : part ∈ texts) : part.toList <:+: (Fragment.commas texts).toList := by
  induction texts with
  | nil => cases h
  | cons first rest ih =>
      by_cases hrest : rest = []
      · subst hrest
        rw [List.mem_singleton] at h
        rw [h, commas_singleton]
      · rw [commas_cons hrest, String.toList_append, String.toList_append]
        obtain rfl | h := List.mem_cons.1 h
        · exact ((List.prefix_append _ _).trans (List.prefix_append _ _)).isInfix
        · exact (ih h).trans (List.suffix_append _ _).isInfix

theorem HoldAll.commas (h : HoldAll texts ls) : Holds (Fragment.commas texts) ls := by
  refine ⟨oneLine_commas h.oneLine, fun s hs => ?_⟩
  obtain ⟨text, htext, hin⟩ := h.verbatim s hs
  exact hin.trans (isInfix_commas htext)

/-! ## fragments -/

theorem HoldAll.list (h : HoldAll texts ls) : Holds (Fragment.list texts) ls :=
  h.commas.between (show OneLine "[" by decide) (show OneLine "]" by decide)

/-- The entries of a dict, each with its key and its value. -/
theorem HoldAll.dict {entries : List (String × String)}
    (h : HoldAll (entries.map fun e => e.1 ++ ": " ++ e.2) ls) : Holds (Fragment.dict entries) ls :=
  h.commas.between (show OneLine "\x7b" by decide) (show OneLine "\x7d" by decide)

theorem Holds.entry (h : Holds text ls) (h' : Holds text' ls') : Holds (text ++ ": " ++ text') (ls ++ ls') :=
  (h.before (by decide)).append h'

theorem Holds.member (h : Holds text ls) {attr : String} (hattr : OneLine attr) :
    Holds (Fragment.member text attr) ls :=
  (h.before (show OneLine "." by decide)).before hattr

theorem Holds.subscript (h : Holds text ls) (h' : Holds text' ls') :
    Holds (Fragment.subscript text text') (ls ++ ls') :=
  ((h.before (show OneLine "[" by decide)).append h').before (by decide)

theorem Holds.call (h : Holds text ls) (hargs : HoldAll texts ls') : Holds (Fragment.call text texts) (ls ++ ls') :=
  ((h.before (show OneLine "(" by decide)).append hargs.commas).before (by decide)

theorem Holds.construct (h : Holds text ls) (hargs : HoldAll texts ls') :
    Holds (Fragment.construct text texts) (ls ++ ls') :=
  (h.call hargs).after (by decide)

theorem Holds.spread (h : Holds text ls) : Holds (Fragment.spread text) ls :=
  h.after (by decide)

/-- Two operands with an operator between them, and something around them. -/
theorem Holds.operation (h : Holds text ls) (h' : Holds text' ls') {front middle symbol back : String}
    (hfront : OneLine front) (hmiddle : OneLine middle) (hsymbol : OneLine symbol) (hback : OneLine back) :
    Holds (front ++ text ++ middle ++ symbol ++ " " ++ text' ++ back) (ls ++ ls') := by
  have hleft := (h.between hfront hmiddle).before hsymbol
  exact ((hleft.before (show OneLine " " by decide)).append h').before hback

theorem Holds.binary (h : Holds text ls) (h' : Holds text' ls') (op : BinaryOp) :
    Holds (Fragment.binary text op text') (ls ++ ls') := by
  have hsymbol : OneLine op.symbol := by cases op <;> decide
  unfold Fragment.binary
  split
  · exact h.operation h' (by decide) (by decide) hsymbol (by decide)
  · exact h.operation h' (by decide) (by decide) hsymbol (by decide)

theorem Holds.compare (h : Holds text ls) (h' : Holds text' ls') (op : CompareOp) :
    Holds (Fragment.compare text op text') (ls ++ ls') :=
  h.operation h' (by decide) (by decide) (by cases op <;> decide) (by decide)

theorem Holds.unary (h : Holds text ls) (op : ViewSync.UnaryOp) : Holds (Fragment.unary op text) ls := by
  have hsymbol : OneLine (unarySymbol op) := by cases op <;> decide
  unfold Fragment.unary
  split
  · exact (h.after ((oneLine_append _ _).2 ⟨hsymbol, by decide⟩)).before (by decide)
  · exact h.after hsymbol

/-- The source has the first branch in front of the test. -/
theorem Holds.ternary (h : Holds text ls) (h' : Holds text' ls') (h'' : Holds text'' ls'') :
    Holds (Fragment.ternary text text' text'') (ls' ++ ls ++ ls'') := by
  have hbranches := ((h.between (show OneLine "(" by decide) (show OneLine " ? " by decide)).append h').before
    (show OneLine " : " by decide)
  have hall := (hbranches.append h'').before (show OneLine ")" by decide)
  have hswap : ls' ++ ls ⊆ ls ++ ls' := List.perm_append_comm.subset
  exact hall.of_subset (List.append_subset.2 ⟨List.subset_append_of_subset_left _ hswap,
    List.subset_append_right _ _⟩)

theorem Holds.lambda (h : Holds text ls) {params : List String} (hparams : ∀ p ∈ params, OneLine p) :
    Holds (Fragment.lambda params text) ls := by
  have hhead : OneLine ("(" ++ Fragment.commas params ++ ") => ") :=
    ((holds_plain (oneLine_commas hparams)).between (by decide) (by decide)).oneLine
  have hbody : Holds (if Fragment.startsWithAny ['\x7b'] text then "(" ++ text ++ ")" else text) ls := by
    split
    · exact h.between (by decide) (by decide)
    · exact h
  exact hbody.after hhead

end

/-! ## statements -/

/-- A statement in which only blocks go over the end of a line, and which has some literals in its text. -/
structure Carries (stmt : Stmt) (literals : List String) : Prop where
  flat : stmt.Flat
  verbatim : ∀ s ∈ literals, (Fragment.string s).toList <:+: stmt.render.toList

/-- Several such statements, each literal being in the text of one of them. -/
structure CarryAll (body : List Stmt) (literals : List String) : Prop where
  flat : ∀ stmt ∈ body, stmt.Flat
  verbatim : ∀ s ∈ literals, ∃ stmt ∈ body, (Fragment.string s).toList <:+: stmt.render.toList

section

variable {stmt : Stmt} {body : List Stmt} {ls ls' : List String}

theorem carryAll_nil : CarryAll [] [] := ⟨by simp, by simp⟩

theorem Carries.cons (h : Carries stmt ls) (h' : CarryAll body ls') : CarryAll (stmt :: body) (ls ++ ls') where
  flat := List.forall_mem_cons.2 ⟨h.flat, h'.flat⟩
  verbatim := by
    refine List.forall_mem_append.2 ⟨fun s hs => ⟨stmt, by simp, h.verbatim s hs⟩, fun s hs => ?_⟩
    obtain ⟨other, hother, hin⟩ := h'.verbatim s hs
    exact ⟨other, by simp [hother], hin⟩

/-- A literal of a statement is in the text of a block that the statement stands in. -/
theorem isInfix_block (h : ∀ stmt ∈ body, stmt.Flat) (hstmt : stmt ∈ body) {s : String}
    (hin : (Fragment.string s).toList <:+: stmt.render.toList) (front back : String) :
    (Fragment.string s).toList <:+: (front ++ Fragment.block (Stmt.renderBlock body) ++ back).toList := by
  obtain ⟨before, after, rfl⟩ := List.append_of_mem hstmt
  have hhosts := hosts_block front back (before.map Stmt.render) (after.map Stmt.render)
  rw [Stmt.renderBlock_eq, List.map_append, List.map_cons]
  exact hhosts.isInfix (h stmt hstmt).tidy (oneLine_string s) hin

theorem CarryAll.isInfix (h : CarryAll body ls) {s : String} (hs : s ∈ ls) (front : String) :
    (Fragment.string s).toList <:+: (front ++ Fragment.block (Stmt.renderBlock body)).toList := by
  obtain ⟨stmt, hstmt, hin⟩ := h.verbatim s hs
  simpa using isInfix_block h.flat hstmt hin front ""

/-- A statement of one line. -/
theorem Holds.carries {text : String} (h : Holds text ls) (hflat : stmt.Flat) (htext : stmt.render = text ++ ";") :
    Carries stmt ls := by
  refine ⟨hflat, fun s hs => (h.verbatim s hs).trans ?_⟩
  rw [htext, String.toList_append]
  exact (List.prefix_append _ _).isInfix

/-- A text with a block behind it. -/
theorem Holds.headed {head : String} (h : Holds head ls) (hbody : CarryAll body ls') :
    ∀ s ∈ ls ++ ls', (Fragment.string s).toList <:+: (head ++ Fragment.block (Stmt.renderBlock body)).toList := by
  refine List.forall_mem_append.2 ⟨fun s hs => (h.verbatim s hs).trans ?_, fun s hs => ?_⟩
  · rw [String.toList_append]
    exact (List.prefix_append _ _).isInfix
  · exact hbody.isInfix hs head

theorem CarryAll.function (h : CarryAll body ls) {signature : Signature} (hsignature : signature.Flat) :
    Carries (.function signature body) ls := by
  refine ⟨.function hsignature h.flat, fun s hs => ?_⟩
  rw [Stmt.render, function_eq]
  exact h.isInfix hs ("function " ++ signature.head)

theorem CarryAll.while_ (h : CarryAll body ls') {condition : Expr} (hcondition : Holds condition.render ls) :
    Carries (.while_ condition body) (ls ++ ls') :=
  ⟨.while_ hcondition.oneLine h.flat,
    (hcondition.between (show OneLine "while (" by decide) (show OneLine ") " by decide)).headed h⟩

theorem CarryAll.for_ (h : CarryAll body ls') {binding : Binding} (hbinding : OneLine binding.render) {source : Expr}
    (hsource : Holds source.render ls) (declared : Bool) (iteration : Iteration) :
    Carries (.for_ declared binding iteration source body) (ls ++ ls') := by
  have hdeclared := oneLine_declaredText declared hbinding
  have hhead : Holds (loopHead iteration (declaredText declared binding.render) source.render) ls := by
    have hfront : ∀ word : String, OneLine word → OneLine ("for (" ++ declaredText declared binding.render ++ word) :=
      fun word hword => ((holds_plain hdeclared).between (by decide) hword).oneLine
    cases iteration with
    | values => exact hsource.between (hfront _ (by decide)) (by decide)
    | keys => exact hsource.between (hfront _ (by decide)) (by decide)
    | entries => exact hsource.between (hfront _ (by decide)) (by decide)
  refine ⟨.for_ hbinding hsource.oneLine h.flat, fun s hs => ?_⟩
  rw [Stmt.render, loopText_eq]
  exact hhead.headed h s hs

/-- Methods in whose texts some literals are. -/
structure MethodsCarry (methods : List (Signature × List Stmt)) (literals : List String) : Prop where
  signatures : ∀ m ∈ methods, m.1.Flat
  flat : ∀ m ∈ methods, ∀ stmt ∈ m.2, stmt.Flat
  verbatim : ∀ s ∈ literals, ∃ m ∈ methods, ∃ stmt ∈ m.2, (Fragment.string s).toList <:+: stmt.render.toList

theorem methodsCarry_nil : MethodsCarry [] [] := ⟨by simp, by simp, by simp⟩

theorem CarryAll.method (h : CarryAll body ls) {signature : Signature} (hsignature : signature.Flat)
    {methods : List (Signature × List Stmt)} (hmethods : MethodsCarry methods ls') :
    MethodsCarry ((signature, body) :: methods) (ls ++ ls') where
  signatures := List.forall_mem_cons.2 ⟨hsignature, hmethods.signatures⟩
  flat := List.forall_mem_cons.2 ⟨h.flat, hmethods.flat⟩
  verbatim := by
    refine List.forall_mem_append.2 ⟨fun s hs => ⟨_, List.mem_cons_self, h.verbatim s hs⟩, fun s hs => ?_⟩
    obtain ⟨m, hm, hin⟩ := hmethods.verbatim s hs
    exact ⟨m, List.mem_cons_of_mem _ hm, hin⟩

theorem MethodsCarry.class_ {methods : List (Signature × List Stmt)} (h : MethodsCarry methods ls) {name : String}
    (hname : OneLine name) : Carries (.class_ name methods) ls := by
  refine ⟨.class_ hname h.signatures h.flat, fun s hs => ?_⟩
  obtain ⟨m, hm, stmt, hstmt, hin⟩ := h.verbatim s hs
  have hmethod := isInfix_block (h.flat m hm) hstmt hin m.1.head ""
  have htidy : Tidy (m.1.head ++ Fragment.block (Stmt.renderBlock m.2) ++ "").toList := by
    rw [String.append_empty]
    exact tidy_headed (h.signatures m hm).head (tidy_renderBlock fun stmt hstmt => (h.flat m hm stmt hstmt).tidy)
  obtain ⟨before, after, rfl⟩ := List.append_of_mem hm
  have hhosts := hosts_block ("class " ++ name ++ " ") "" (Stmt.renderMethods before) (Stmt.renderMethods after)
  have hclass := hhosts.isInfix htidy (oneLine_string s) hmethod
  simpa [Stmt.render, Fragment.classDef, Stmt.renderMethods_eq, method_eq] using hclass

/-- The branches and the last block of an `if` in whose texts some literals are. -/
structure BranchesCarry (branches : List (Expr × List Stmt)) (last : Option (List Stmt)) (literals : List String) :
    Prop where
  conditions : ∀ branch ∈ branches, OneLine branch.1.render
  bodies : ∀ branch ∈ branches, ∀ stmt ∈ branch.2, stmt.Flat
  lastBody : ∀ body ∈ last, ∀ stmt ∈ body, stmt.Flat
  verbatim : ∀ s ∈ literals,
    (∃ branch ∈ branches, (Fragment.string s).toList <:+: branch.1.render.toList) ∨
    (∃ branch ∈ branches, ∃ stmt ∈ branch.2, (Fragment.string s).toList <:+: stmt.render.toList) ∨
    ∃ body ∈ last, ∃ stmt ∈ body, (Fragment.string s).toList <:+: stmt.render.toList

theorem branchesCarry_nil : BranchesCarry [] none [] := ⟨by simp, by simp, by simp, by simp⟩

theorem CarryAll.last (h : CarryAll body ls) : BranchesCarry [] (some body) ls :=
  ⟨by simp, by simp, by simpa using h.flat, fun s hs => .inr (.inr ⟨body, rfl, h.verbatim s hs⟩)⟩

section

variable {branches : List (Expr × List Stmt)} {last : Option (List Stmt)} {ls'' : List String}

theorem CarryAll.branch (h : CarryAll body ls') {condition : Expr} (hcondition : Holds condition.render ls)
    (hrest : BranchesCarry branches last ls'') :
    BranchesCarry ((condition, body) :: branches) last (ls ++ ls' ++ ls'') where
  conditions := List.forall_mem_cons.2 ⟨hcondition.oneLine, hrest.conditions⟩
  bodies := List.forall_mem_cons.2 ⟨h.flat, hrest.bodies⟩
  lastBody := hrest.lastBody
  verbatim := by
    refine List.forall_mem_append.2 ⟨List.forall_mem_append.2 ⟨fun s hs => ?_, fun s hs => ?_⟩, fun s hs => ?_⟩
    · exact .inl ⟨_, List.mem_cons_self, hcondition.verbatim s hs⟩
    · exact .inr (.inl ⟨_, List.mem_cons_self, h.verbatim s hs⟩)
    · obtain ⟨b, hb, hin⟩ | ⟨b, hb, hin⟩ | hin := hrest.verbatim s hs
      · exact .inl ⟨b, List.mem_cons_of_mem _ hb, hin⟩
      · exact .inr (.inl ⟨b, List.mem_cons_of_mem _ hb, hin⟩)
      · exact .inr (.inr hin)

theorem BranchesCarry.ifChain (h : BranchesCarry branches last ls) (hne : branches ≠ []) :
    Carries (.ifChain branches last) ls := by
  refine ⟨.ifChain hne h.conditions h.bodies h.lastBody, fun s hs => ?_⟩
  obtain ⟨b, hb, hin⟩ | ⟨b, hb, stmt, hstmt, hin⟩ | ⟨body, hbody, stmt, hstmt, hin⟩ := h.verbatim s hs
  · obtain ⟨before, after, rfl⟩ := List.append_of_mem hb
    obtain ⟨front, back, hchain⟩ := exists_branch before after last
    rw [hchain b.1 b.2]
    refine hin.trans ⟨(front ++ "if (").toList, (") " ++ Fragment.block (Stmt.renderBlock b.2) ++ back).toList, ?_⟩
    simp [String.append_assoc]
  · obtain ⟨before, after, rfl⟩ := List.append_of_mem hb
    obtain ⟨front, back, hchain⟩ := exists_branch before after last
    rw [hchain b.1 b.2]
    exact isInfix_block (h.bodies b hb) hstmt hin _ back
  · obtain rfl : last = some body := hbody
    obtain ⟨front, hlast⟩ := exists_last branches
    rw [hlast body]
    simpa using isInfix_block (h.lastBody body rfl) hstmt hin front ""

end

end

end Script

end ViewSync
