import ViewSync.Proofs.Token.Positions
import ViewSync.Source.File

/-!
# ViewSync.Proofs.Source.Places

Positions against the bytes of a source. A source cuts its text into lines, and a line and a column name a byte of
one of them (`SourceFile.offset?`); a span names the bytes between two such places (`SourceFile.slice?`). The position
that a reader has counted behind some text is the place of the byte that follows (`offset?_endOf`), so that the span of
what it reads next names the bytes of that (`slice?_spanFrom`). Places are in the order of their bytes
(`before_iff_offset?`).
-/

namespace ViewSync

/-! ## bytes -/

/-- The bytes of a text. -/
def bytes (cs : List Char) : List UInt8 :=
  cs.flatMap String.utf8EncodeChar

@[simp] theorem bytes_nil : bytes [] = [] := rfl

@[simp] theorem bytes_append (cs ds : List Char) : bytes (cs ++ ds) = bytes cs ++ bytes ds :=
  List.flatMap_append

theorem length_bytes_cons (c : Char) (cs : List Char) :
    (bytes (c :: cs)).length = c.utf8Size + (bytes cs).length := by
  rw [bytes, List.flatMap_cons, List.length_append, String.length_utf8EncodeChar]
  rfl

theorem length_bytes_pos {cs : List Char} (h : cs ≠ []) : 0 < (bytes cs).length := by
  cases cs with
  | nil => contradiction
  | cons c cs =>
      have hsize := c.utf8Size_pos
      rw [length_bytes_cons]
      omega

/-- The bytes of some lines, each with its newline. -/
def bytesOfRows : List (List Char) → Nat
  | [] => 0
  | row :: rows => (bytes row).length + 1 + bytesOfRows rows

theorem bytesOfRows_eq (rows : List (List Char)) : bytesOfRows rows = (bytes (Text.unlines rows)).length := by
  induction rows with
  | nil => rfl
  | cons row rows ih =>
      have hnewline : (bytes ['\n']).length = 1 := rfl
      simp only [Text.unlines, List.flatMap_cons, bytes_append, List.length_append, hnewline] at ih ⊢
      rw [bytesOfRows, ih]

theorem unlines_append (rows more : List (List Char)) :
    Text.unlines (rows ++ more) = Text.unlines rows ++ Text.unlines more :=
  List.flatMap_append

theorem bytesOfRows_take_succ {rows : List (List Char)} {n : Nat} {row : List Char} (h : rows[n]? = some row) :
    bytesOfRows (rows.take (n + 1)) = bytesOfRows (rows.take n) + ((bytes row).length + 1) := by
  have hrow : (bytes (Text.unlines [row])).length = (bytes row).length + 1 := by
    simp [← bytesOfRows_eq, bytesOfRows]
  rw [List.take_add_one, h, Option.toList_some, bytesOfRows_eq, bytesOfRows_eq, unlines_append, bytes_append,
    List.length_append, hrow]

theorem bytesOfRows_take_le (rows : List (List Char)) {m n : Nat} (h : m ≤ n) :
    bytesOfRows (rows.take m) ≤ bytesOfRows (rows.take n) := by
  obtain ⟨k, rfl⟩ := Nat.exists_eq_add_of_le h
  rw [List.take_add, bytesOfRows_eq, bytesOfRows_eq, unlines_append, bytes_append, List.length_append]
  omega

/-! ## places in a source -/

namespace SourceFile

/-- The number of bytes in front of a place, if its line has a byte there. -/
def offset? (file : SourceFile) (p : Pos) : Option Nat :=
  match p.line, p.col with
  | line + 1, col + 1 =>
    file.rows[line]?.bind fun row =>
      if col < (bytes row).length then some (bytesOfRows (file.rows.take line) + col) else none
  | _, _ => none

/-- The bytes from the first place of a span to its last one, that one included. -/
def slice? (file : SourceFile) (span : Span) : Option (List UInt8) :=
  match file.offset? span.first, file.offset? span.last with
  | some first, some last => some (((bytes file.text.toList).take (last + 1)).drop first)
  | _, _ => none

theorem offset?_eq_some {file : SourceFile} {p : Pos} {n : Nat} :
    file.offset? p = some n ↔
      ∃ line col row, p = ⟨line + 1, col + 1⟩ ∧ file.rows[line]? = some row ∧ col < (bytes row).length ∧
        n = bytesOfRows (file.rows.take line) + col := by
  obtain ⟨line, col⟩ := p
  cases line with
  | zero => simp [offset?]
  | succ line =>
      cases col with
      | zero => simp [offset?]
      | succ col =>
          simp only [offset?, Option.bind_eq_some_iff, Option.ite_none_right_eq_some, Option.some.injEq, Pos.mk.injEq,
            Nat.add_right_cancel_iff]
          constructor
          · rintro ⟨row, hrow, hcol, rfl⟩
            exact ⟨line, col, row, ⟨rfl, rfl⟩, hrow, hcol, rfl⟩
          · rintro ⟨_, _, row, ⟨rfl, rfl⟩, hrow, hcol, rfl⟩
            exact ⟨row, hrow, hcol, rfl⟩

theorem offset?_lt {file : SourceFile} {p q : Pos} {m n : Nat} (hp : file.offset? p = some m)
    (hq : file.offset? q = some n) (h : p.before q = true) : m < n := by
  obtain ⟨line, col, row, rfl, hrow, hcol, rfl⟩ := offset?_eq_some.1 hp
  obtain ⟨line', col', row', rfl, hrow', hcol', rfl⟩ := offset?_eq_some.1 hq
  simp only [Pos.before_iff, Nat.add_lt_add_iff_right, Nat.add_right_cancel_iff] at h
  obtain hline | ⟨rfl, hcols⟩ := h
  · -- The first place is on an earlier line, whose bytes all stand in front of the second place.
    have hlines := bytesOfRows_take_le file.rows (show line + 1 ≤ line' from hline)
    have hbytes := bytesOfRows_take_succ hrow
    omega
  · omega

/-- Places are in the order of their bytes. -/
theorem before_iff_offset? {file : SourceFile} {p q : Pos} {m n : Nat} (hp : file.offset? p = some m)
    (hq : file.offset? q = some n) : p.before q = true ↔ m < n := by
  constructor
  · exact offset?_lt hp hq
  · intro h
    obtain hpq | rfl | hqp := p.trichotomy q
    · exact hpq
    · have heq : m = n := Option.some.inj (hp.symm.trans hq)
      omega
    · have hlt := offset?_lt hq hp hqp
      omega

end SourceFile

/-! ## counted positions -/

/-- The position behind a text, counted character by character from the start of a source. -/
def endOf (before : List Char) : Pos :=
  before.foldl Pos.after ⟨1, 1⟩

theorem endOf_append (before cs : List Char) : endOf (before ++ cs) = cs.foldl Pos.after (endOf before) :=
  List.foldl_append

theorem Cursor.pos_advance (n : Nat) (cur : Cursor) :
    (cur.advance n).pos = (cur.rest.take n).foldl Pos.after cur.pos := by
  induction n generalizing cur with
  | zero => simp
  | succ n ih =>
      cases hrest : cur.rest with
      | nil => rw [advance_of_nil hrest]; rfl
      | cons c cs =>
          rw [advance]
          simp only [hrest, List.take_succ_cons, List.foldl_cons]
          exact ih _

/-- Some lines, and the start of a further one. -/
theorem exists_unlines_append (cs : List Char) :
    ∃ lines row, cs = Text.unlines lines ++ row ∧ (∀ line ∈ lines, '\n' ∉ line) ∧ '\n' ∉ row := by
  induction cs with
  | nil => exact ⟨[], [], rfl, nofun, nofun⟩
  | cons c cs ih =>
      obtain ⟨lines, row, rfl, hlines, hrow⟩ := ih
      by_cases hc : c = '\n'
      · exact ⟨[] :: lines, row, by rw [hc]; rfl, List.forall_mem_cons.2 ⟨nofun, hlines⟩, hrow⟩
      · have hne := Ne.symm hc
        cases lines with
        | nil => exact ⟨[], c :: row, rfl, nofun, by simp [hne, hrow]⟩
        | cons line lines =>
            obtain ⟨hline, hlines⟩ := List.forall_mem_cons.1 hlines
            exact ⟨(c :: line) :: lines, row, rfl, List.forall_mem_cons.2 ⟨by simp [hne, hline], hlines⟩, hrow⟩

/-- A line without its newline only moves the column. -/
theorem foldl_after_row {row : List Char} (h : '\n' ∉ row) (p : Pos) :
    row.foldl Pos.after p = ⟨p.line, p.col + (bytes row).length⟩ := by
  induction row generalizing p with
  | nil => rfl
  | cons c row ih =>
      simp only [List.mem_cons, not_or] at h
      rw [List.foldl_cons, ih h.2, Pos.after, if_neg (Ne.symm h.1), length_bytes_cons, Nat.add_assoc]

theorem endOf_unlines {lines : List (List Char)} (h : ∀ line ∈ lines, '\n' ∉ line) :
    endOf (Text.unlines lines) = ⟨lines.length + 1, 1⟩ := by
  have hcount : ∀ n, (Text.unlines lines).foldl Pos.after ⟨n, 1⟩ = ⟨n + lines.length, 1⟩ := by
    induction lines with
    | nil => exact fun n => rfl
    | cons line lines ih =>
        intro n
        obtain ⟨hline, hlines⟩ := List.forall_mem_cons.1 h
        simp only [Text.unlines, List.flatMap_cons, List.foldl_append, foldl_after_row hline] at ih ⊢
        simp [Pos.after, ih hlines, Nat.add_assoc, Nat.add_comm 1]
  rw [endOf, hcount, Nat.add_comm]

theorem one_le_col_endOf (before : List Char) : 1 ≤ (endOf before).col := by
  obtain ⟨lines, row, rfl, hlines, hrow⟩ := exists_unlines_append before
  rw [endOf_append, endOf_unlines hlines, foldl_after_row hrow]
  exact Nat.le_add_right 1 _

theorem rows_unlines_append {lines : List (List Char)} (h : ∀ line ∈ lines, '\n' ∉ line) (cs : List Char) :
    Text.rows (Text.unlines lines ++ cs) = lines ++ Text.rows cs := by
  induction lines with
  | nil => rfl
  | cons line lines ih =>
      obtain ⟨hline, hlines⟩ := List.forall_mem_cons.1 h
      have hrow : ∀ ds, Text.rows (line ++ '\n' :: ds) = line :: Text.rows ds := by
        intro ds
        induction line with
        | nil => simp [Text.rows]
        | cons c line ihline =>
            simp only [List.mem_cons, not_or] at hline
            have hrest := ihline (List.forall_mem_cons.2 ⟨hline.2, hlines⟩) hline.2
            simp [Text.rows, Ne.symm hline.1, hrest]
      rw [Text.unlines, List.flatMap_cons, List.append_assoc, List.append_assoc, List.singleton_append, hrow,
        List.cons_append]
      exact congrArg _ (ih hlines)

/-- The row of a character that is no newline has what stands in front of it on its line, and the character. -/
theorem exists_rows_eq {row : List Char} (h : '\n' ∉ row) {c : Char} (hc : c ≠ '\n') (cs : List Char) :
    ∃ more rows, Text.rows (row ++ c :: cs) = (row ++ c :: more) :: rows := by
  induction row with
  | nil =>
      obtain ⟨first, rows, hrows⟩ := List.exists_cons_of_ne_nil (Text.rows_ne_nil cs)
      exact ⟨first, rows, by simp [Text.rows, hc, hrows]⟩
  | cons d row ih =>
      simp only [List.mem_cons, not_or] at h
      obtain ⟨more, rows, hrows⟩ := ih h.2
      exact ⟨more, rows, by simp [Text.rows, Ne.symm h.1, hrows]⟩

/-- The position behind some text is the place of the character that follows, and so are the columns of its further
bytes. -/
theorem offset?_endOf {file : SourceFile} {before cs : List Char} {c : Char}
    (h : file.text.toList = before ++ c :: cs) (hc : c ≠ '\n') {i : Nat} (hi : i < c.utf8Size) :
    file.offset? ⟨(endOf before).line, (endOf before).col + i⟩ = some ((bytes before).length + i) := by
  obtain ⟨lines, row, rfl, hlines, hrow⟩ := exists_unlines_append before
  obtain ⟨more, rows, hrows⟩ := exists_rows_eq hrow hc cs
  have hall : file.rows = lines ++ (row ++ c :: more) :: rows := by
    rw [SourceFile.rows, h, List.append_assoc, rows_unlines_append hlines, hrows]
  rw [endOf_append, endOf_unlines hlines, foldl_after_row hrow, SourceFile.offset?_eq_some]
  refine ⟨lines.length, (bytes row).length + i, row ++ c :: more, ?_, ?_, ?_, ?_⟩
  · simp only [Nat.add_assoc, Nat.add_comm 1]
  · simp [hall]
  · rw [bytes_append, List.length_append, length_bytes_cons]
    omega
  · rw [hall, List.take_left, bytesOfRows_eq, bytes_append, List.length_append]
    omega

/-- The span of what is read behind some text names its bytes. -/
theorem slice?_spanFrom {file : SourceFile} {before lexeme rest : List Char}
    (h : file.text.toList = before ++ (lexeme ++ rest)) (hfirst : ∀ c ∈ lexeme.head?, c ≠ '\n')
    (hlast : ∀ c ∈ lexeme.getLast?, c ≠ '\n') (hne : lexeme ≠ []) (cur : Cursor)
    (hcur : cur.pos = endOf (before ++ lexeme)) :
    file.offset? (cur.spanFrom (endOf before)).first = some (bytes before).length ∧
      file.offset? (cur.spanFrom (endOf before)).last = some ((bytes before).length + (bytes lexeme).length - 1) ∧
      file.slice? (cur.spanFrom (endOf before)) = some (bytes lexeme) := by
  have hstart : file.offset? (endOf before) = some (bytes before).length := by
    obtain ⟨c, more, rfl⟩ := List.exists_cons_of_ne_nil hne
    exact offset?_endOf h (hfirst c rfl) c.utf8Size_pos
  have hend : file.offset? (cur.spanFrom (endOf before)).last =
      some ((bytes before).length + (bytes lexeme).length - 1) := by
    obtain ⟨init, c, rfl⟩ : ∃ init c, lexeme = init ++ [c] := ⟨_, _, (List.dropLast_concat_getLast hne).symm⟩
    have hc : c ≠ '\n' := hlast c (by simp)
    have hsize := c.utf8Size_pos
    have hcol := one_le_col_endOf (before ++ init)
    have hlength : (bytes (init ++ [c])).length = (bytes init).length + c.utf8Size := by
      rw [bytes_append, List.length_append, length_bytes_cons]
      rfl
    have htext : file.text.toList = (before ++ init) ++ c :: rest := by simp [h]
    have hplace := offset?_endOf htext hc (Nat.sub_one_lt_of_lt hsize)
    have hpos : cur.pos = ⟨(endOf (before ++ init)).line, (endOf (before ++ init)).col + c.utf8Size⟩ := by
      rw [hcur, ← List.append_assoc, endOf_append (before ++ init), List.foldl_cons, List.foldl_nil, Pos.after,
        if_neg hc]
    have hmax : max ((endOf (before ++ init)).col + c.utf8Size - 1) 1 =
        (endOf (before ++ init)).col + (c.utf8Size - 1) := by omega
    rw [Cursor.spanFrom, hpos]
    simp only [hmax, hplace, bytes_append, List.length_append] at hlength ⊢
    congr 1
    omega
  have hpos := length_bytes_pos hne
  refine ⟨hstart, hend, ?_⟩
  have hfirst' : file.offset? (cur.spanFrom (endOf before)).first = some (bytes before).length := hstart
  rw [SourceFile.slice?, hfirst', hend]
  have hcount : (bytes before).length + (bytes lexeme).length - 1 + 1 = (bytes before ++ bytes lexeme).length := by
    rw [List.length_append]
    omega
  simp [h, ← List.append_assoc, hcount]

end ViewSync
