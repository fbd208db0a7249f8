import Mathlib.Data.List.Forall2
import ViewSync.Proofs.Source.Places
import ViewSync.View.Compile

/-!
# ViewSync.Proofs.Source.Dedent

Sources moved to the left edge. The shared indent of some lines is the longest white space that all of them start
with (`prefix_sharedIndent`), so the lines that are left share none, and taking it away once more does nothing. More
white space in front of every line that is not blank becomes part of the shared indent and goes with it, so the result
does not tell how deep a source was embedded (`dedent_canonical`).
-/

namespace ViewSync

/-! ## lines of a text -/

namespace Text

/-- Carriage returns stand only directly in front of newlines. -/
def returnsAtEnds : List Char → Bool
  | [] => true
  | c :: cs => (c != '\r' || cs.head? == some '\n') && returnsAtEnds cs

/-- A line without the carriage return at its end. -/
def withoutReturn (line : List Char) : List Char :=
  if line.getLast? = some '\r' then line.dropLast else line

/-- A line with more white space in front, unless it is blank. -/
def indentLine (w line : List Char) : List Char :=
  if isBlankLine line then line else w ++ line

/-- A text with more white space in front of every line that is not blank; the ends of lines stay as they are. -/
def indent (w cs : List Char) : List Char :=
  ['\n'].intercalate ((rows cs).map (indentLine w))

variable {w row cs : List Char} {ls : List (List Char)}

theorem lines_append_newline (h : '\n' ∉ row) (cs : List Char) :
    lines (row ++ '\n' :: cs) = withoutReturn row :: lines cs := by
  induction row with
  | nil => rfl
  | cons c row ih =>
      rw [List.mem_cons, not_or] at h
      obtain ⟨hc, hrow⟩ := h
      cases row with
      | nil =>
          by_cases hreturn : c = '\r'
          · subst hreturn
            rfl
          · simp [lines, withoutReturn, hreturn, Ne.symm hc]
      | cons d row =>
          have hd : d ≠ '\n' := fun heq => hrow (heq ▸ List.mem_cons_self)
          have hmore : withoutReturn (c :: d :: row) = c :: withoutReturn (d :: row) := by
            simp only [withoutReturn, List.getLast?_cons_cons]
            split <;> rfl
          rw [hmore, List.cons_append, lines, ih hrow]
          · exact fun heq => hc heq.symm
          · exact fun more _ heq => hd (List.head_eq_of_cons_eq heq)

/-- Behind the last newline there is one more line, unless the text ends there. -/
theorem lines_of_last (h : '\n' ∉ row) : lines row = if row = [] then [] else [row] := by
  induction row with
  | nil => rfl
  | cons c row ih =>
      rw [List.mem_cons, not_or] at h
      obtain ⟨hc, hrow⟩ := h
      have hhead : ∀ more, row ≠ '\n' :: more := fun more heq => hrow (heq ▸ List.mem_cons_self)
      rw [lines, ih hrow]
      · cases row <;> simp
      · simpa using Ne.symm hc
      · exact fun more _ heq => hhead more heq

theorem lines_unlines_append (h : ∀ line ∈ ls, '\n' ∉ line) (hrow : '\n' ∉ row) :
    lines (unlines ls ++ row) = ls.map withoutReturn ++ if row = [] then [] else [row] := by
  induction ls with
  | nil => exact lines_of_last hrow
  | cons line ls ih =>
      obtain ⟨hline, hls⟩ := List.forall_mem_cons.1 h
      rw [List.map_cons, List.cons_append, ← ih hls, ← lines_append_newline hline]
      simp [unlines]

theorem rows_of_row (h : '\n' ∉ row) : rows row = [row] := by
  induction row with
  | nil => rfl
  | cons c row ih =>
      rw [List.mem_cons, not_or] at h
      rw [rows, if_neg (Ne.symm h.1), ih h.2]

theorem intercalate_newline (ls : List (List Char)) (row : List Char) :
    ['\n'].intercalate (ls ++ [row]) = unlines ls ++ row := by
  induction ls with
  | nil => exact List.intercalate_singleton
  | cons line ls ih =>
      obtain ⟨next, rest, hnext⟩ := List.exists_cons_of_ne_nil (show ls ++ [row] ≠ [] by simp)
      rw [List.cons_append, hnext, List.intercalate_cons_cons, ← hnext, ih]
      simp [unlines]

theorem indent_unlines_append (h : ∀ line ∈ ls, '\n' ∉ line) (hrow : '\n' ∉ row) (w : List Char) :
    indent w (unlines ls ++ row) = unlines (ls.map (indentLine w)) ++ indentLine w row := by
  rw [indent, rows_unlines_append h, rows_of_row hrow, List.map_append, List.map_singleton, intercalate_newline]

theorem isBlankLine_withoutReturn (line : List Char) : isBlankLine (withoutReturn line) = isBlankLine line := by
  cases hlast : line.getLast? with
  | none => rw [withoutReturn, if_neg (by simp [hlast])]
  | some c =>
      by_cases hreturn : c = '\r'
      · obtain ⟨start, rfl⟩ := List.getLast?_eq_some_iff.1 hlast
        have hblank : isBlank '\r' = true := by decide
        simp [withoutReturn, isBlankLine, hreturn, hblank]
      · rw [withoutReturn, if_neg (by simp [hlast, hreturn])]

theorem withoutReturn_indentLine (w line : List Char) :
    withoutReturn (indentLine w line) = indentLine w (withoutReturn line) := by
  rw [indentLine, indentLine, isBlankLine_withoutReturn]
  split
  · rfl
  · rename_i hblank
    have hne : line ≠ [] := fun heq => hblank (heq ▸ rfl)
    obtain ⟨last, hlast⟩ := Option.ne_none_iff_exists'.1 (mt List.getLast?_eq_none_iff.1 hne)
    rw [withoutReturn, withoutReturn, List.getLast?_append, hlast, Option.some_or,
      List.dropLast_append_of_ne_nil hne]
    split <;> rfl

theorem not_mem_indentLine (hw : '\n' ∉ w) (hrow : '\n' ∉ row) : '\n' ∉ indentLine w row := by
  rw [indentLine]
  split
  · exact hrow
  · simp [hw, hrow]

theorem indentLine_eq_nil_iff (w row : List Char) : indentLine w row = [] ↔ row = [] := by
  rw [indentLine]
  split
  · rfl
  · rename_i hblank
    have hne : row ≠ [] := fun heq => hblank (heq ▸ rfl)
    simp [hne]

/-- White space put in front of the lines of a text is in front of its lines. -/
theorem lines_indent (hw : '\n' ∉ w) (cs : List Char) : lines (indent w cs) = (lines cs).map (indentLine w) := by
  obtain ⟨ls, row, rfl, hls, hrow⟩ := exists_unlines_append cs
  have hindented : ∀ line ∈ ls.map (indentLine w), '\n' ∉ line := by
    rw [List.forall_mem_map]
    exact fun line hline => not_mem_indentLine hw (hls line hline)
  rw [indent_unlines_append hls hrow, lines_unlines_append hindented (not_mem_indentLine hw hrow),
    lines_unlines_append hls hrow, List.map_append, List.map_map, List.map_map]
  congr 1
  · exact List.map_congr_left fun line _ => withoutReturn_indentLine w line
  · by_cases hnil : row = []
    · simp [hnil, indentLine_eq_nil_iff]
    · simp [hnil, indentLine_eq_nil_iff]

/-- A carriage return that ends no line is not there. -/
theorem ne_return {c : Char} (h : returnsAtEnds (c :: cs) = true) (hends : ∀ more, c = '\r' → cs ≠ '\n' :: more) :
    c ≠ '\r' := by
  intro hc
  simp only [returnsAtEnds, hc, bne_self_eq_false, Bool.false_or, Bool.and_eq_true, beq_iff_eq] at h
  obtain ⟨more, hmore⟩ := List.head?_eq_some_iff.1 h.1
  exact hends more hc hmore

theorem not_mem_lines (h : returnsAtEnds cs = true) : ∀ line ∈ lines cs, '\n' ∉ line ∧ '\r' ∉ line := by
  induction cs using lines.induct with
  | case1 => nofun
  | case2 cs ih =>
      simp only [returnsAtEnds, Bool.and_eq_true] at h
      exact List.forall_mem_cons.2 ⟨by simp, ih h.2⟩
  | case3 cs ih =>
      simp only [returnsAtEnds, Bool.and_eq_true] at h
      exact List.forall_mem_cons.2 ⟨by simp, ih h.2.2⟩
  | case4 c cs hnewline hends hmore ih =>
      have hreturn := ne_return h hends
      rw [lines, hmore]
      · simpa using ⟨Ne.symm hnewline, Ne.symm hreturn⟩
      · exact hnewline
      · exact hends
  | case5 c cs hnewline hends line rest hmore ih =>
      have hreturn := ne_return h hends
      simp only [returnsAtEnds, Bool.and_eq_true] at h
      have hall := ih h.2
      rw [hmore, List.forall_mem_cons] at hall
      rw [lines, hmore]
      · refine List.forall_mem_cons.2 ⟨?_, hall.2⟩
        simpa [Ne.symm hnewline, Ne.symm hreturn] using hall.1
      · exact hnewline
      · exact hends

theorem lines_unlines (h : ∀ line ∈ ls, '\n' ∉ line ∧ '\r' ∉ line) : lines (unlines ls) = ls := by
  have hlines := lines_unlines_append (fun line hline => (h line hline).1) (List.not_mem_nil (a := '\n'))
  rw [List.append_nil, if_pos rfl, List.append_nil] at hlines
  rw [hlines]
  refine (List.map_congr_left fun line hline => ?_).trans (List.map_id ls)
  exact if_neg fun hlast => (h line hline).2 (List.mem_of_getLast? hlast)

end Text

/-! ## the shared indent -/

theorem prefix_commonStart {more as bs : List Char} : more <+: commonStart as bs ↔ more <+: as ∧ more <+: bs := by
  induction as generalizing more bs with
  | nil => cases bs <;> simp +contextual [commonStart]
  | cons a as ih =>
      cases bs with
      | nil => simp +contextual [commonStart]
      | cons b bs =>
          rw [commonStart]
          cases more with
          | nil => simp
          | cons c more =>
              by_cases hab : a = b
              · simp only [hab, if_pos, List.cons_prefix_cons, ih]
                exact and_and_left
              · rw [if_neg hab, List.prefix_nil, List.cons_prefix_cons, List.cons_prefix_cons]
                exact ⟨nofun, fun h => (hab (h.1.1.symm.trans h.2.1)).elim⟩

theorem prefix_foldl_commonStart {more start : List Char} {rest : List (List Char)} :
    more <+: rest.foldl commonStart start ↔ more <+: start ∧ ∀ text ∈ rest, more <+: text := by
  induction rest generalizing start with
  | nil => simp
  | cons text rest ih =>
      rw [List.foldl_cons, ih, prefix_commonStart, List.forall_mem_cons, and_assoc]

namespace Text

theorem prefix_leadingBlanks {more line : List Char} :
    more <+: leadingBlanks line ↔ isBlankLine more = true ∧ more <+: line := by
  induction line generalizing more with
  | nil => cases more <;> simp [leadingBlanks, isBlankLine]
  | cons c line ih =>
      cases more with
      | nil => simp [isBlankLine]
      | cons d more =>
          have hcons : isBlankLine (d :: more) = true ↔ isBlank d = true ∧ isBlankLine more = true := by
            simp [isBlankLine]
          rw [hcons, leadingBlanks, List.takeWhile_cons, List.cons_prefix_cons]
          by_cases hc : isBlank c = true
          · rw [if_pos hc, List.cons_prefix_cons, ← leadingBlanks, ih]
            constructor
            · rintro ⟨rfl, hmore, hline⟩
              exact ⟨⟨hc, hmore⟩, rfl, hline⟩
            · rintro ⟨⟨hd, hmore⟩, rfl, hline⟩
              exact ⟨rfl, hmore, hline⟩
          · rw [if_neg hc]
            exact ⟨nofun, fun h => (hc (h.2.1 ▸ h.1.1)).elim⟩

end Text

section Lines

variable {more : List Char} {ls : List (List Char)}

/-- The shared indent starts with just the white space that all lines start with that are not blank. -/
theorem prefix_sharedIndent (h : ∃ line ∈ ls, Text.isBlankLine line = false) :
    more <+: sharedIndent ls ↔
      Text.isBlankLine more = true ∧ ∀ line ∈ ls, Text.isBlankLine line = false → more <+: line := by
  have hfold : more <+: sharedIndent ls ↔
      ∀ line ∈ ls, Text.isBlankLine line = false → more <+: Text.leadingBlanks line := by
    obtain ⟨line, hline, hblank⟩ := h
    have hmem : Text.leadingBlanks line ∈
        (ls.filter fun l => !Text.isBlankLine l).map Text.leadingBlanks :=
      List.mem_map_of_mem (List.mem_filter.2 ⟨hline, by simp [hblank]⟩)
    obtain ⟨start, rest, hrest⟩ := List.exists_cons_of_ne_nil (List.ne_nil_of_mem hmem)
    rw [sharedIndent, hrest, prefix_foldl_commonStart, ← List.forall_mem_cons, ← hrest, List.forall_mem_map]
    simp only [List.mem_filter, Bool.not_eq_true', and_imp]
  obtain ⟨line, hline, hblank⟩ := h
  simp only [hfold, Text.prefix_leadingBlanks]
  refine ⟨fun h => ⟨(h line hline hblank).1, fun line hline hblank => (h line hline hblank).2⟩, ?_⟩
  exact fun h line hline hblank => ⟨h.1, h.2 line hline hblank⟩

theorem sharedIndent_of_blank (h : ∀ line ∈ ls, Text.isBlankLine line = true) : sharedIndent ls = [] := by
  have hnone : ls.filter (fun l => !Text.isBlankLine l) = [] := by
    rw [List.filter_eq_nil_iff]
    exact fun line hline => by simp [h line hline]
  rw [sharedIndent, hnone]
  rfl

theorem isBlankLine_sharedIndent (ls : List (List Char)) : Text.isBlankLine (sharedIndent ls) = true := by
  by_cases h : ∃ line ∈ ls, Text.isBlankLine line = false
  · exact ((prefix_sharedIndent h).1 List.prefix_rfl).1
  · rw [sharedIndent_of_blank (by simpa using h)]
    rfl

/-- Every line that is not blank is the shared indent and what is left of it. -/
theorem sharedIndent_append_drop {line : List Char} (hline : line ∈ ls) (hblank : Text.isBlankLine line = false) :
    sharedIndent ls ++ line.drop (sharedIndent ls).length = line := by
  have hprefix := ((prefix_sharedIndent ⟨line, hline, hblank⟩).1 List.prefix_rfl).2 line hline hblank
  exact List.prefix_iff_eq_append.1 hprefix

namespace Text

theorem isBlankLine_append (w line : List Char) : isBlankLine (w ++ line) = (isBlankLine w && isBlankLine line) :=
  List.all_append

theorem isBlankLine_indentLine (w line : List Char) : isBlankLine (indentLine w line) = isBlankLine line := by
  rw [indentLine]
  split
  · rfl
  · rename_i hblank
    simp [isBlankLine_append, hblank]

end Text

/-- White space in front of the lines is in front of their shared indent. -/
theorem sharedIndent_indentLine {w : List Char} (hw : Text.isBlankLine w = true)
    (h : ∃ line ∈ ls, Text.isBlankLine line = false) :
    sharedIndent (ls.map (Text.indentLine w)) = w ++ sharedIndent ls := by
  have hmapped : ∃ line ∈ ls.map (Text.indentLine w), Text.isBlankLine line = false := by
    obtain ⟨line, hline, hblank⟩ := h
    exact ⟨_, List.mem_map_of_mem hline, by rw [Text.isBlankLine_indentLine, hblank]⟩
  have hlines : ∀ line ∈ ls, Text.isBlankLine line = false → Text.indentLine w line = w ++ line :=
    fun line _ hblank => if_neg (by simp [hblank])
  have hw_prefix : w <+: sharedIndent (ls.map (Text.indentLine w)) := by
    refine (prefix_sharedIndent hmapped).2 ⟨hw, ?_⟩
    simp only [List.forall_mem_map, Text.isBlankLine_indentLine]
    exact fun line hline hblank => hlines line hline hblank ▸ List.prefix_append w line
  obtain ⟨start, hstart⟩ := hw_prefix
  have hsame : ∀ more, more <+: start ↔ more <+: sharedIndent ls := by
    intro more
    rw [← List.prefix_append_right_inj w, hstart, prefix_sharedIndent hmapped, prefix_sharedIndent h,
      Text.isBlankLine_append, hw, Bool.true_and]
    simp only [List.forall_mem_map, Text.isBlankLine_indentLine]
    refine and_congr_right fun _ => forall_congr' fun line => forall_congr' fun hline => forall_congr' fun hblank => ?_
    rw [hlines line hline hblank, List.prefix_append_right_inj]
  have heq : start = sharedIndent ls :=
    ((hsame start).1 List.prefix_rfl).eq_of_length_le ((hsame _).2 List.prefix_rfl).length_le
  rw [← hstart, heq]

/-- What is left of a line that is not blank is not blank. -/
theorem isBlankLine_drop_sharedIndent {line : List Char} (hline : line ∈ ls)
    (hblank : Text.isBlankLine line = false) :
    Text.isBlankLine (line.drop (sharedIndent ls).length) = false := by
  have happend := Text.isBlankLine_append (sharedIndent ls) (line.drop (sharedIndent ls).length)
  rwa [sharedIndent_append_drop hline hblank, hblank, isBlankLine_sharedIndent, Bool.true_and, eq_comm] at happend

/-! ## the lines moved to the left edge -/

theorem forall_mem_dedentLines {P : List Char → Prop} :
    (∀ out ∈ dedentLines ls, Text.isBlankLine out = false → P out) ↔
      ∀ line ∈ ls, Text.isBlankLine line = false → P (line.drop (sharedIndent ls).length) := by
  rw [dedentLines, List.forall_mem_map]
  refine forall_congr' fun line => forall_congr' fun hline => ?_
  cases hblank : Text.isBlankLine line with
  | true => simp [Text.isBlankLine]
  | false => simp [isBlankLine_drop_sharedIndent hline hblank]

theorem exists_mem_dedentLines :
    (∃ out ∈ dedentLines ls, Text.isBlankLine out = false) ↔ ∃ line ∈ ls, Text.isBlankLine line = false := by
  have hnone : (∀ out ∈ dedentLines ls, Text.isBlankLine out = false → False) ↔ _ := forall_mem_dedentLines
  simpa using not_congr hnone

/-- The lines that are left share no white space. -/
theorem sharedIndent_dedentLines (ls : List (List Char)) : sharedIndent (dedentLines ls) = [] := by
  by_cases houts : ∃ out ∈ dedentLines ls, Text.isBlankLine out = false
  · have hlines := exists_mem_dedentLines.1 houts
    obtain ⟨hblank, hall⟩ := (prefix_sharedIndent houts).1 List.prefix_rfl
    rw [forall_mem_dedentLines] at hall
    -- With what the lines left share, the indent would still start all lines, so that is nothing.
    have hmore : sharedIndent ls ++ sharedIndent (dedentLines ls) <+: sharedIndent ls := by
      refine (prefix_sharedIndent hlines).2 ⟨?_, fun line hline hline_blank => ?_⟩
      · rw [Text.isBlankLine_append, isBlankLine_sharedIndent, hblank, Bool.and_self]
      · have hleft := hall line hline hline_blank
        rwa [← List.prefix_append_right_inj (sharedIndent ls), sharedIndent_append_drop hline hline_blank] at hleft
    have hlength := hmore.length_le
    rw [List.length_append] at hlength
    exact List.length_eq_zero_iff.1 (by omega)
  · exact sharedIndent_of_blank (by simpa using houts)

theorem dedentLines_dedentLines (ls : List (List Char)) : dedentLines (dedentLines ls) = dedentLines ls := by
  have hfixed : ∀ out ∈ dedentLines ls, (if Text.isBlankLine out then [] else out) = out := by
    rw [dedentLines, List.forall_mem_map]
    intro line hline
    cases hblank : Text.isBlankLine line with
    | true => rfl
    | false => simp [isBlankLine_drop_sharedIndent hline hblank]
  rw [dedentLines, sharedIndent_dedentLines]
  exact (List.map_congr_left hfixed).trans (List.map_id _)

theorem dedentLines_indentLine {w : List Char} (hw : Text.isBlankLine w = true) (ls : List (List Char)) :
    dedentLines (ls.map (Text.indentLine w)) = dedentLines ls := by
  rw [dedentLines, dedentLines, List.map_map]
  refine List.map_congr_left fun line hline => ?_
  rw [Function.comp_apply, Text.isBlankLine_indentLine]
  cases hblank : Text.isBlankLine line with
  | true => rfl
  | false =>
      simp [sharedIndent_indentLine hw ⟨line, hline, hblank⟩, Text.indentLine, hblank, List.drop_append]

/-- The lines `outs` are the lines `ls` with one white space taken away from all that are not blank, and as much of
it as there is. -/
structure MovedLeft (ls outs : List (List Char)) (indent : List Char) : Prop where
  /-- What is taken away is white space. -/
  blank : Text.isBlankLine indent = true
  /-- There is one line for each line: nothing for a blank one, and what is behind the indent for any other. -/
  each : List.Forall₂ (fun line out => if Text.isBlankLine line then out = [] else line = indent ++ out) ls outs
  /-- No longer white space stands in front of all the lines that are not blank. -/
  longest : (∃ line ∈ ls, Text.isBlankLine line = false) → ∀ more, Text.isBlankLine more = true →
    (∀ line ∈ ls, Text.isBlankLine line = false → more <+: line) → more <+: indent
  /-- The lines left share no white space: none stands in front of all those that are not blank. -/
  apart : (∃ line ∈ ls, Text.isBlankLine line = false) → ∀ c, Text.isBlank c = true →
    ∃ out ∈ outs, Text.isBlankLine out = false ∧ out.head? ≠ some c

theorem movedLeft_dedentLines (ls : List (List Char)) : MovedLeft ls (dedentLines ls) (sharedIndent ls) where
  blank := isBlankLine_sharedIndent ls
  each := by
    rw [dedentLines, List.forall₂_map_right_iff, List.forall₂_same]
    intro line hline
    cases hblank : Text.isBlankLine line with
    | true => rfl
    | false => simpa using (sharedIndent_append_drop hline hblank).symm
  longest h more hblank hall := (prefix_sharedIndent h).2 ⟨hblank, hall⟩
  apart h c hc := by
    by_contra hnone
    simp only [not_exists, not_and, not_not] at hnone
    have hprefix : [c] <+: sharedIndent (dedentLines ls) := by
      refine (prefix_sharedIndent (exists_mem_dedentLines.2 h)).2 ⟨by simp [Text.isBlankLine, hc], ?_⟩
      intro out hout hblank
      obtain ⟨more, rfl⟩ := List.head?_eq_some_iff.1 (hnone out hout hblank)
      exact ⟨more, rfl⟩
    rw [sharedIndent_dedentLines] at hprefix
    exact List.cons_ne_nil c [] (List.prefix_nil.1 hprefix)

end Lines

/-! ## sources -/

/-- A source with more white space in front of every line that is not blank. -/
def indented (w : List Char) (source : String) : String :=
  String.ofList (Text.indent w source.toList)

theorem lines_dedent {source : String} (h : Text.returnsAtEnds source.toList = true) :
    Text.lines (dedent source).toList = dedentLines (Text.lines source.toList) := by
  have hlines := Text.not_mem_lines h
  rw [dedent, String.toList_ofList]
  refine Text.lines_unlines fun out hout => ?_
  obtain ⟨line, hline, rfl⟩ := List.mem_map.1 hout
  obtain ⟨hnewline, hreturn⟩ := hlines line hline
  split
  · exact ⟨List.not_mem_nil, List.not_mem_nil⟩
  · exact ⟨fun hmem => hnewline (List.mem_of_mem_drop hmem), fun hmem => hreturn (List.mem_of_mem_drop hmem)⟩

theorem dedent_indented {w : List Char} (hw : ∀ c ∈ w, c = ' ' ∨ c = '\t') (source : String) :
    dedent (indented w source) = dedent source := by
  have hnewline : '\n' ∉ w := fun hmem => by simpa using hw _ hmem
  have hblank : Text.isBlankLine w = true := by
    rw [Text.isBlankLine, List.all_eq_true]
    intro c hc
    obtain rfl | rfl := hw c hc <;> decide
  rw [dedent, dedent, indented, String.toList_ofList, Text.lines_indent hnewline, dedentLines_indentLine hblank]

theorem compileSource_eq_of_dedent {source source' : String} (h : dedent source = dedent source') (fileName : String)
    (table : Replacements) : compileSource fileName source table = compileSource fileName source' table := by
  rw [compileSource, compileSource, h]

/-- A source at the left edge does not tell how deep it was embedded. Line by line it is the source without the
longest white space in front of all lines that are not blank, and with nothing on the blank ones; moving it once more
does nothing; and with more white space in front of its lines a source moves to the same text, so that it compiles to
the same result. -/
theorem dedent_canonical (source : String) (returns : Text.returnsAtEnds source.toList = true) :
    (∃ indent, MovedLeft (Text.lines source.toList) (Text.lines (dedent source).toList) indent) ∧
      (dedent source).toList = Text.unlines (Text.lines (dedent source).toList) ∧
      dedent (dedent source) = dedent source ∧
      ∀ w, (∀ c ∈ w, c = ' ' ∨ c = '\t') →
        dedent (indented w source) = dedent source ∧
          ∀ fileName table,
            compileSource fileName (indented w source) table = compileSource fileName source table := by
  have hlines := lines_dedent returns
  refine ⟨⟨_, hlines ▸ movedLeft_dedentLines _⟩, ?_, ?_, fun w hw => ?_⟩
  · rw [hlines, dedent, String.toList_ofList]
  · rw [dedent, hlines, dedentLines_dedentLines, dedent]
  · have hdedent := dedent_indented hw source
    exact ⟨hdedent, compileSource_eq_of_dedent hdedent⟩

namespace Sample

/-- Two lines behind a tab, the second one a space deeper, with a blank line between them. -/
def embedded : String :=
  String.ofList ['\t', 'a', ':', '\r', '\n', ' ', '\r', '\n', '\t', ' ', 'b']

theorem dedent_canonical_embedded :
    Text.returnsAtEnds embedded.toList = true ∧
      dedent (indented [' ', '\t'] embedded) = String.ofList ['a', ':', '\n', '\n', ' ', 'b', '\n'] ∧
      dedent (dedent embedded) = dedent embedded := by
  have hreturns : Text.returnsAtEnds embedded.toList = true := by
    rw [embedded, String.toList_ofList]
    decide
  obtain ⟨-, -, hfixed, hindented⟩ := dedent_canonical embedded hreturns
  refine ⟨hreturns, (hindented [' ', '\t'] (by simp)).1.trans ?_, hfixed⟩
  rw [dedent, embedded, String.toList_ofList]
  congr 1

end Sample

end ViewSync
