import ViewSync.Json.Typed
import ViewSync.Proofs.Json.Leaves

/-!
# ViewSync.Proofs.Json.Reading

Every text of a value is read as that value. The readers pass over white space first (`Skips`), so it is enough to look
at what stands behind it. Arrays and objects are read along their lists of parts, from what is known of the readers of
items and members.

* `readItems_listed`, `readMembers_listed` — items and members are read in their order, up to what closes them;
* `takes_spells` — a reader of some depth takes the texts of every value that nest no deeper.
-/

namespace ViewSync.Json

/-! ## white space -/

namespace Input

theorem advance_of_nil {inp : Input} (h : inp.rest = []) (n : Nat) : inp.advance n = inp := by
  cases n with
  | zero => rfl
  | succ n => simp [advance, h]

theorem advance_advance (m n : Nat) (inp : Input) : (inp.advance m).advance n = inp.advance (m + n) := by
  induction m generalizing inp with
  | zero => rw [Nat.zero_add]; rfl
  | succ m ih =>
      cases h : inp.rest with
      | nil => rw [advance_of_nil h, advance_of_nil h, advance_of_nil h]
      | cons c cs =>
          rw [Nat.add_right_comm]
          simp only [advance, h]
          exact ih _

/-- White space is skipped step by step. -/
theorem skipSpace_behind {space rest : List Char} (hspace : Blank space) {inp : Input} (h : inp.rest = space ++ rest) :
    inp.skipSpace = (inp.advance space.length).skipSpace := by
  have hrest : (inp.advance space.length).rest = rest := by rw [rest_advance, h, List.drop_left]
  rw [skipSpace, skipSpace, advance_advance, hrest, h, List.takeWhile_append_of_pos hspace, List.length_append]

theorem skipSpace_skipSpace (inp : Input) : inp.skipSpace.skipSpace = inp.skipSpace := by
  have hspace : Blank (inp.rest.takeWhile isSpace) := fun c hc =>
    List.all_eq_true.1 List.all_takeWhile c hc
  exact (skipSpace_behind hspace List.takeWhile_append_dropWhile.symm).symm

/-- White space is skipped up to the first other character. -/
theorem rest_skipSpace {space cs : List Char} (hspace : Blank space) {c : Char} (hc : isSpace c = false) {inp : Input}
    (h : inp.rest = space ++ c :: cs) : inp.skipSpace.rest = c :: cs := by
  rw [skipSpace, rest_advance, h, List.takeWhile_append_of_pos hspace, List.takeWhile_cons, hc]
  simp

end Input

/-- What a function does depends on the input behind white space only. -/
def Skips {β : Type} (f : Input → β) : Prop :=
  ∀ inp, f inp.skipSpace = f inp

section

variable {α β : Type}

theorem Skips.behind {f : Input → β} (h : Skips f) {space rest : List Char} (hspace : Blank space) {inp : Input}
    (hinp : inp.rest = space ++ rest) : f inp = f (inp.advance space.length) := by
  rw [← h inp, Input.skipSpace_behind hspace hinp, h]

theorem rest_behind {space rest : List Char} {inp : Input} (h : inp.rest = space ++ rest) :
    (inp.advance space.length).rest = rest := by
  rw [Input.rest_advance, h, List.drop_left]

/-- A reader that skips white space takes a text with white space in front. -/
theorem Takes.led {read : Input → Read α} {text : List Char} {a : α} (h : Takes read text a) (skips : Skips read)
    {space : List Char} (hspace : Blank space) : Takes read (space ++ text) a := by
  intro inp rest hinp ends
  rw [List.append_assoc] at hinp
  rw [skips.behind hspace hinp]
  exact h _ rest (rest_behind hinp) ends

theorem skips_endText : Skips endText := fun inp => by
  simp only [endText, Input.skipSpace_skipSpace]

theorem skips_readWith (leaves : Leaves) (nested : Option (Input → Read Json)) : Skips (readWith leaves nested) :=
  fun inp => by simp only [readWith, Input.skipSpace_skipSpace]

theorem skips_readNested (leaves : Leaves) (d : Nat) : Skips (readNested leaves d) := by
  cases d with
  | zero => exact skips_readWith leaves none
  | succ d => exact skips_readWith leaves _

/-! ## what stands behind a name -/

/-- Reads what stands behind a colon, and goes on with something made of it. -/
def behindColon (read : Input → Read α) (f : α → β) (inp : Input) : Except Error (β × Input) := do
  let (a, next) ← read (← colon inp)
  return (f a, next)

theorem colon_behind {space rest : List Char} (hspace : Blank space) {inp : Input}
    (h : inp.rest = space ++ ':' :: rest) : ∃ next, colon inp = .ok next ∧ next.rest = rest := by
  have hcolon := Input.rest_skipSpace hspace rfl h
  exact ⟨inp.skipSpace.advance 1, by simp [colon, hcolon], by simp [hcolon]⟩

variable {spells : Json → List Char → Prop}

/-- What a reader takes for a value, it takes behind a colon. -/
theorem SpellsBehind.takes {v : Json} {text : List Char} (h : SpellsBehind spells v text) {read : Input → Read α}
    {a : α} (skips : Skips read) (each : ∀ text, spells v text → Takes read text a) (f : α → β) :
    Takes (behindColon read f) text (f a) := by
  obtain ⟨space, space', value, hspace, hspace', hvalue, rfl⟩ := h
  intro inp rest hinp ends
  rw [List.append_assoc, List.cons_append] at hinp
  obtain ⟨behind, hcolon, hbehind⟩ := colon_behind hspace hinp
  obtain ⟨next, hread, hnext⟩ := (each value hvalue).led skips hspace' behind rest hbehind ends
  refine ⟨next, ?_, hnext⟩
  simp only [behindColon, hcolon, bind, Except.bind, hread]
  rfl

/-! ## lists of parts -/

/-- As many parts as there are, so many characters there are at least. -/
theorem Listed.length_le {spells : α → List Char → Prop} {first : Bool} {as : List α} {text : List Char}
    (h : Listed spells first as text) (hne : ∀ a text, spells a text → text ≠ []) : as.length ≤ text.length := by
  induction h with
  | nil => exact Nat.zero_le _
  | first _ ha _ ih | next _ _ ha _ ih =>
      have hlength := List.length_pos_iff.2 (hne _ _ ha)
      simp only [List.length_append, List.length_cons]
      omega

/-- Each part has a text. -/
theorem Listed.exists_of_mem {spells : α → List Char → Prop} {first : Bool} {as : List α} {text : List Char}
    (h : Listed spells first as text) {a : α} (ha : a ∈ as) : ∃ text, spells a text := by
  induction h with
  | nil => cases ha
  | first _ hfirst _ ih | next _ _ hfirst _ ih =>
      obtain rfl | ha := List.mem_cons.1 ha
      · exact ⟨_, hfirst⟩
      · exact ih ha

/-- Behind a part there is a comma or what closes the list, and maybe white space in front. -/
theorem Listed.ends {spells : α → List Char → Prop} {as : List α} {text : List Char} (h : Listed spells false as text)
    {close : Char} (hclose : continuesNumber close = false) (rest : List Char) : Ends (text ++ close :: rest) := by
  cases h with
  | nil hspace => exact hspace.ends (ends_cons hclose)
  | next hspace hspace' ha hmore =>
      rw [List.append_assoc]
      exact hspace.ends (ends_cons rfl)

/-! ### arrays -/

/-- A text that can be the one of an item. -/
def Begins (text : List Char) : Prop :=
  ∃ c cs, text = c :: cs ∧ Input.isSpace c = false ∧ c ≠ ']'

theorem Begins.ne_nil {text : List Char} (h : Begins text) : text ≠ [] := by
  obtain ⟨c, cs, rfl, -⟩ := h
  exact List.cons_ne_nil c cs

theorem nextItem_first {space text rest : List Char} (hspace : Blank space) (begins : Begins text) {inp : Input}
    (h : inp.rest = space ++ (text ++ rest)) :
    ∃ next, nextItem true inp = .ok (true, next) ∧ next.rest = text ++ rest := by
  obtain ⟨c, cs, rfl, hc, hclose⟩ := begins
  have hfirst := Input.rest_skipSpace hspace hc h
  exact ⟨inp.skipSpace, by simp [nextItem, hfirst, hclose], hfirst⟩

theorem nextItem_next {space space' text rest : List Char} (hspace : Blank space) (hspace' : Blank space')
    (begins : Begins text) {inp : Input} (h : inp.rest = space ++ ',' :: (space' ++ (text ++ rest))) :
    ∃ next, nextItem false inp = .ok (true, next) ∧ next.rest = text ++ rest := by
  obtain ⟨c, cs, rfl, hc, hclose⟩ := begins
  have hcomma := Input.rest_skipSpace hspace rfl h
  have hbehind : (inp.skipSpace.advance 1).rest = space' ++ (c :: cs ++ rest) := by simp [hcomma]
  have hfirst := Input.rest_skipSpace hspace' hc hbehind
  exact ⟨(inp.skipSpace.advance 1).skipSpace, by simp [nextItem, hcomma, hfirst, hclose], hfirst⟩

theorem nextItem_close {space rest : List Char} (hspace : Blank space) (first : Bool) {inp : Input}
    (h : inp.rest = space ++ ']' :: rest) :
    ∃ next, nextItem first inp = .ok (false, next) ∧ next.rest = ']' :: rest := by
  have hclose := Input.rest_skipSpace hspace rfl h
  exact ⟨inp.skipSpace, by simp [nextItem, hclose], hclose⟩

theorem endList_of_close {inp : Input} {rest : List Char} (h : inp.rest = ']' :: rest) :
    endList inp = .ok (inp.advance 1) := by
  simp [endList, skipSpace_of_cons h rfl, h]

/-- Items are read from their texts, up to the end of the array. -/
theorem readItems_listed {spells : α → List Char → Prop} {item : Input → Read α} {first : Bool} {as : List α}
    {text : List Char} (h : Listed spells first as text)
    (each : ∀ a ∈ as, ∀ text, spells a text → Takes item text a ∧ Begins text) {bound : Nat}
    (enough : as.length < bound) {inp : Input} {rest : List Char} (hinp : inp.rest = text ++ ']' :: rest) :
    ∃ next, readItems item bound first inp = .ok (as, next) ∧ next.rest = rest := by
  -- what a round does once it is known where the item starts
  have hround : ∀ {first : Bool} {a : α} {as : List α} {text more : List Char} {bound : Nat} {inp : Input},
      (∃ next, nextItem first inp = .ok (true, next) ∧ next.rest = text ++ (more ++ ']' :: rest)) → Takes item text a →
      Listed spells false as more →
      (∀ {inp : Input}, inp.rest = more ++ ']' :: rest →
        ∃ next, readItems item bound false inp = .ok (as, next) ∧ next.rest = rest) →
      ∃ next, readItems item (bound + 1) first inp = .ok (a :: as, next) ∧ next.rest = rest := by
    intro first a as text more bound inp hitem htakes hmore ih
    obtain ⟨behind, hitem, hbehind⟩ := hitem
    obtain ⟨after, hread, hafter⟩ := htakes behind _ hbehind (hmore.ends rfl rest)
    obtain ⟨next, hreads, hnext⟩ := ih hafter
    exact ⟨next, by simp [readItems, hitem, hread, hreads, bind, Except.bind, pure, Except.pure], hnext⟩
  induction h generalizing inp bound with
  | @nil first space hspace =>
      obtain ⟨bound, rfl⟩ := Nat.exists_eq_succ_of_ne_zero (Nat.ne_zero_of_lt enough)
      obtain ⟨behind, hclose, hbehind⟩ := nextItem_close hspace first hinp
      refine ⟨behind.advance 1, ?_, by simp [hbehind]⟩
      simp [readItems, hclose, endList_of_close hbehind, bind, Except.bind, pure, Except.pure]
  | @first a as space text more hspace ha hmore ih =>
      obtain ⟨bound, rfl⟩ := Nat.exists_eq_succ_of_ne_zero (Nat.ne_zero_of_lt enough)
      obtain ⟨hfirst, hrest⟩ := List.forall_mem_cons.1 each
      obtain ⟨htakes, begins⟩ := hfirst text ha
      refine hround (nextItem_first hspace begins (by simpa using hinp)) htakes hmore fun hinp => ?_
      exact ih hrest (Nat.lt_of_succ_lt_succ enough) hinp
  | @next a as space space' text more hspace hspace' ha hmore ih =>
      obtain ⟨bound, rfl⟩ := Nat.exists_eq_succ_of_ne_zero (Nat.ne_zero_of_lt enough)
      obtain ⟨hfirst, hrest⟩ := List.forall_mem_cons.1 each
      obtain ⟨htakes, begins⟩ := hfirst text ha
      refine hround (nextItem_next hspace hspace' begins (by simpa using hinp)) htakes hmore fun hinp => ?_
      exact ih hrest (Nat.lt_of_succ_lt_succ enough) hinp

/-! ### objects -/

theorem SpellsText.rest_skipSpace {s : String} {space text rest : List Char} (h : SpellsText s text)
    (hspace : Blank space) {inp : Input} (hinp : inp.rest = space ++ (text ++ rest)) :
    inp.skipSpace.rest = text ++ rest := by
  obtain ⟨body, -, rfl⟩ := h
  exact Input.rest_skipSpace hspace rfl hinp

theorem nextKey_first {name : String} {space text rest : List Char} (hspace : Blank space)
    (hname : SpellsText name text) {inp : Input} (h : inp.rest = space ++ (text ++ rest)) :
    ∃ next, nextKey readString true inp = .ok (some name, next) ∧ next.rest = rest := by
  have hfirst := hname.rest_skipSpace hspace h
  obtain ⟨cs, hquote, next, hread, hnext⟩ := readString_spells hname hfirst
  exact ⟨next, by simp [nextKey, hquote, hread, Except.map], hnext⟩

theorem nextKey_next {name : String} {space space' text rest : List Char} (hspace : Blank space)
    (hspace' : Blank space')
    (hname : SpellsText name text) {inp : Input} (h : inp.rest = space ++ ',' :: (space' ++ (text ++ rest))) :
    ∃ next, nextKey readString false inp = .ok (some name, next) ∧ next.rest = rest := by
  have hcomma := Input.rest_skipSpace hspace rfl h
  have hbehind : (inp.skipSpace.advance 1).rest = space' ++ (text ++ rest) := by simp [hcomma]
  have hfirst := hname.rest_skipSpace hspace' hbehind
  obtain ⟨cs, hquote, next, hread, hnext⟩ := readString_spells hname hfirst
  exact ⟨next, by simp [nextKey, hcomma, hquote, hread, Except.map], hnext⟩

theorem nextKey_close {space rest : List Char} (hspace : Blank space) (first : Bool) {inp : Input}
    (h : inp.rest = space ++ '\x7d' :: rest) :
    ∃ next, nextKey readString first inp = .ok (none, next) ∧ next.rest = '\x7d' :: rest := by
  have hclose := Input.rest_skipSpace hspace rfl h
  exact ⟨inp.skipSpace, by simp [nextKey, hclose], hclose⟩

theorem endObject_of_close {inp : Input} {rest : List Char} (h : inp.rest = '\x7d' :: rest) :
    endObject inp = .ok (inp.advance 1) := by
  simp [endObject, skipSpace_of_cons h rfl, h]

/-- Members are read from their texts, up to the end of the object. `state` is what has been made of the members in
front; each member is only to be read behind those. -/
theorem readMembers_listed {member : α → String → Input → Read α} {all : List (String × Json)}
    (state : List (String × Json) → α)
    (each : ∀ front e back, all = front ++ e :: back → ∀ text, SpellsBehind spells e.2 text →
      Takes (member (state front) e.1) text (state (front ++ [e])))
    {first : Bool} {entries front : List (String × Json)} {text : List Char}
    (h : Listed (SpellsMember spells) first entries text) (hall : all = front ++ entries) {bound : Nat}
    (enough : entries.length < bound) {inp : Input} {rest : List Char} (hinp : inp.rest = text ++ '\x7d' :: rest) :
    ∃ next, readMembers readString member bound first (state front) inp = .ok (state all, next) ∧ next.rest = rest := by
  -- what a round does once the name has been read
  have hround : ∀ {first : Bool} {e : String × Json} {entries front : List (String × Json)} {behind more : List Char}
      {bound : Nat} {inp : Input}, all = front ++ e :: entries → SpellsBehind spells e.2 behind →
      (∃ next, nextKey readString first inp = .ok (some e.1, next) ∧ next.rest = behind ++ (more ++ '\x7d' :: rest)) →
      Listed (SpellsMember spells) false entries more →
      (∀ {inp : Input}, inp.rest = more ++ '\x7d' :: rest → ∃ next,
        readMembers readString member bound false (state (front ++ [e])) inp = .ok (state all, next) ∧
          next.rest = rest) →
      ∃ next, readMembers readString member (bound + 1) first (state front) inp = .ok (state all, next) ∧
        next.rest = rest := by
    intro first e entries front behind more bound inp hall hbehind hkey hmore ih
    obtain ⟨colon, hkey, hcolon⟩ := hkey
    obtain ⟨after, hread, hafter⟩ := each front e entries hall behind hbehind colon _ hcolon (hmore.ends rfl rest)
    obtain ⟨next, hreads, hnext⟩ := ih hafter
    exact ⟨next, by simp [readMembers, hkey, hread, hreads, bind, Except.bind], hnext⟩
  induction h generalizing inp bound front with
  | @nil first space hspace =>
      obtain ⟨bound, rfl⟩ := Nat.exists_eq_succ_of_ne_zero (Nat.ne_zero_of_lt enough)
      obtain ⟨behind, hclose, hbehind⟩ := nextKey_close hspace first hinp
      rw [List.append_nil] at hall
      refine ⟨behind.advance 1, ?_, by simp [hbehind]⟩
      simp [readMembers, hclose, endObject_of_close hbehind, hall, bind, Except.bind, pure, Except.pure]
  | @first e entries space text more hspace he hmore ih =>
      obtain ⟨bound, rfl⟩ := Nat.exists_eq_succ_of_ne_zero (Nat.ne_zero_of_lt enough)
      obtain ⟨name, behind, hname, hbehind, rfl⟩ := he
      refine hround hall hbehind (nextKey_first hspace hname (by simpa using hinp)) hmore fun hinp => ?_
      exact ih (by simpa using hall) (Nat.lt_of_succ_lt_succ enough) hinp
  | @next e entries space space' text more hspace hspace' he hmore ih =>
      obtain ⟨bound, rfl⟩ := Nat.exists_eq_succ_of_ne_zero (Nat.ne_zero_of_lt enough)
      obtain ⟨name, behind, hname, hbehind, rfl⟩ := he
      refine hround hall hbehind (nextKey_next hspace hspace' hname (by simpa using hinp)) hmore fun hinp => ?_
      exact ih (by simpa using hall) (Nat.lt_of_succ_lt_succ enough) hinp

/-- The value of each member has a text. -/
theorem SpellsObject.exists_of_mem {entries : List (String × Json)} {object : List Char}
    (h : SpellsObject spells entries object) {e : String × Json} (he : e ∈ entries) : ∃ text, spells e.2 text := by
  obtain ⟨row, hrow, -⟩ := h
  obtain ⟨_, name, behind, -, ⟨space, space', value, -, -, hvalue, -⟩, -⟩ := hrow.exists_of_mem he
  exact ⟨value, hvalue⟩

theorem SpellsObject.rest_skipSpace {entries : List (String × Json)} {space object rest : List Char}
    (h : SpellsObject spells entries object) (hspace : Blank space) {inp : Input}
    (hinp : inp.rest = space ++ (object ++ rest)) : inp.skipSpace.rest = object ++ rest := by
  obtain ⟨row, -, rfl⟩ := h
  exact Input.rest_skipSpace hspace rfl hinp

theorem SpellsObject.exists_cons {entries : List (String × Json)} {object rest : List Char}
    (h : SpellsObject spells entries object) {inp : Input} (hinp : inp.rest = object ++ rest) :
    ∃ cs, inp.rest = '\x7b' :: cs := by
  obtain ⟨row, -, rfl⟩ := h
  exact ⟨_, hinp⟩

theorem SpellsMember.ne_nil {e : String × Json} {text : List Char} (h : SpellsMember spells e text) : text ≠ [] := by
  obtain ⟨name, behind, ⟨body, -, rfl⟩, -, rfl⟩ := h
  exact List.cons_ne_nil _ _

/-- The members of an object are read from behind its brace, with one character of the text for each. -/
theorem SpellsObject.readMembers {member : α → String → Input → Read α} {all : List (String × Json)}
    {object : List Char} (h : SpellsObject spells all object) (state : List (String × Json) → α)
    (each : ∀ front e back, all = front ++ e :: back → ∀ text, SpellsBehind spells e.2 text →
      Takes (member (state front) e.1) text (state (front ++ [e])))
    {inp : Input} {rest : List Char} (hinp : inp.rest = object ++ rest) : ∃ cs, inp.rest = '\x7b' :: cs ∧
      ∃ next, Json.readMembers readString member (cs.length + 1) true (state []) (inp.advance 1) =
        .ok (state all, next) ∧ next.rest = rest := by
  obtain ⟨row, hrow, rfl⟩ := h
  rw [List.cons_append, List.append_assoc, List.singleton_append] at hinp
  have hbehind : (inp.advance 1).rest = row ++ '\x7d' :: rest := by
    rw [Input.rest_advance, hinp]
    rfl
  have henough : all.length < (row ++ '\x7d' :: rest).length + 1 := by
    have hlength := hrow.length_le fun _ _ he => he.ne_nil
    rw [List.length_append]
    omega
  exact ⟨_, hinp, readMembers_listed state each hrow rfl henough hbehind⟩

end

/-! ## values -/

section

variable {spells : Json → List Char → Prop} {nested : Input → Read Json}

theorem takes_array {items : List Json} {text : List Char} (h : SpellsArray spells items text)
    (each : ∀ v text, spells v text → Takes nested text v ∧ Begins text) :
    Takes (readWith .exact (some nested)) text (.arr items) := by
  obtain ⟨row, hrow, rfl⟩ := h
  intro inp rest hinp _
  rw [List.cons_append, List.append_assoc, List.singleton_append] at hinp
  have hbehind : (inp.advance 1).rest = row ++ ']' :: rest := by
    rw [Input.rest_advance, hinp]
    rfl
  have henough : items.length < (row ++ ']' :: rest).length + 1 := by
    have hlength := hrow.length_le fun v text hv => (each v text hv).2.ne_nil
    rw [List.length_append]
    omega
  obtain ⟨next, hread, hnext⟩ := readItems_listed hrow (fun v _ => each v) henough hbehind
  refine ⟨next, ?_, hnext⟩
  have hscalar : readScalar? .exact inp = none := by simp [readScalar?, hinp]
  simp only [readWith, skipSpace_of_cons hinp rfl, hscalar, hinp]
  rw [if_pos trivial, hread]
  rfl

/-- Reads the value of a member and puts it among those read before. -/
def readEntry (nested : Input → Read Json) (acc : Fields) (key : String) : Input → Read Fields :=
  behindColon nested (acc.put key)

theorem takes_object {entries : List (String × Json)} {text : List Char} (h : SpellsObject spells entries text)
    (skips : Skips nested) (each : ∀ v text, spells v text → Takes nested text v) :
    Takes (readWith .exact (some nested)) text (.obj (Fields.ofPairs entries)) := by
  intro inp rest hinp _
  have hmember : ∀ front e back, entries = front ++ e :: back → ∀ text, SpellsBehind spells e.2 text →
      Takes (readEntry nested (Fields.ofPairs front) e.1) text (Fields.ofPairs (front ++ [e])) := by
    intro front e back _ text hbehind
    have hput : Fields.ofPairs (front ++ [e]) = (Fields.ofPairs front).put e.1 e.2 := by
      rw [Fields.ofPairs, Fields.putAll, List.foldl_append]
      rfl
    rw [hput]
    exact hbehind.takes skips (each e.2) _
  obtain ⟨cs, hopen, next, hread, hnext⟩ := h.readMembers Fields.ofPairs hmember hinp
  refine ⟨next, ?_, hnext⟩
  have hscalar : readScalar? .exact inp = none := by simp [readScalar?, hopen]
  simp only [readWith, skipSpace_of_cons hopen rfl, hscalar, hopen]
  rw [if_neg (by decide), if_pos trivial]
  exact congrArg _ hread

end

theorem begins_numeral (n : Numeral) : Begins n.text := by
  obtain ⟨c, cs, hcons, hdigit⟩ := n.unsigned_eq_cons
  rw [Numeral.text]
  split
  · exact ⟨'-', _, rfl, rfl, by decide⟩
  · exact ⟨c, cs, hcons, isSpace_of_isDigit hdigit, ne_of_isDigit hdigit rfl⟩

theorem begins_scalar {v : Json} {text : List Char} (h : SpellsScalar v text) : Begins text := by
  cases h with
  | null => exact ⟨'n', _, rfl, rfl, by decide⟩
  | bool value =>
      cases value with
      | true => exact ⟨'t', _, rfl, rfl, by decide⟩
      | false => exact ⟨'f', _, rfl, rfl, by decide⟩
  | int h => exact Numeral.text_ofInt _ ▸ begins_numeral _
  | float h => exact begins_numeral _
  | str h =>
      obtain ⟨body, -, rfl⟩ := h
      exact ⟨'"', _, rfl, rfl, by decide⟩

theorem begins_spells {d : Nat} {v : Json} {text : List Char} (h : Spells d v text) : Begins text := by
  cases d with
  | zero => exact begins_scalar h
  | succ d =>
      obtain h | ⟨items, ⟨row, -, rfl⟩, -⟩ | ⟨entries, ⟨row, -, rfl⟩, -⟩ := h
      · exact begins_scalar h
      · exact ⟨'[', _, rfl, rfl, by decide⟩
      · exact ⟨'\x7b', _, rfl, rfl, by decide⟩

/-- A reader takes every text that nests no deeper than it may go for its value. -/
theorem takes_spells {d : Nat} {v : Json} {text : List Char} (h : Spells d v text) :
    Takes (readNested .exact d) text v := by
  induction d generalizing v text with
  | zero => exact takes_scalar h none
  | succ d ih =>
      obtain h | ⟨items, h, rfl⟩ | ⟨entries, h, rfl⟩ := h
      · exact takes_scalar h _
      · exact takes_array h fun v text hv => ⟨ih hv, begins_spells hv⟩
      · exact takes_object h (skips_readNested .exact d) fun v text hv => ih hv

/-! ## what nests too deep -/

/-- More opening brackets than a reader may go deep are refused. -/
theorem readNested_of_deep (leaves : Leaves) {depth : Nat} {inp : Input} {rest : List Char}
    (h : inp.rest = List.replicate (depth + 1) '[' ++ rest) :
    ∃ place, readNested leaves depth inp = .error (.at_ .recursionLimit place) := by
  induction depth generalizing inp with
  | zero =>
      have hscalar : readScalar? leaves inp = none := by simp [readScalar?, h]
      have hopen : inp.rest = '[' :: rest := h
      simp only [readNested, readWith, skipSpace_of_cons hopen rfl, hscalar, hopen]
      exact ⟨_, rfl⟩
  | succ depth ih =>
      rw [List.replicate_succ, List.cons_append] at h
      have hscalar : readScalar? leaves inp = none := by simp [readScalar?, h]
      have hbehind : (inp.advance 1).rest = [] ++ (List.replicate (depth + 1) '[' ++ rest) := by
        rw [Input.rest_advance, h]
        rfl
      obtain ⟨item, hitem, hrest⟩ := nextItem_first blank_nil ⟨'[', _, rfl, rfl, by decide⟩ hbehind
      obtain ⟨place, hdeep⟩ := ih hrest
      refine ⟨place, ?_⟩
      simp only [readNested, readWith, skipSpace_of_cons h rfl, hscalar, h]
      rw [if_pos trivial, readItems, hitem]
      simp [hdeep, bind, Except.bind, Except.map]

/-! ## what a text says of its value -/

theorem Spells.scalar {d : Nat} {v : Json} {text : List Char} (h : Spells d v text) (harr : ∀ items, v ≠ .arr items)
    (hobj : ∀ members, v ≠ .obj members) : SpellsScalar v text := by
  cases d with
  | zero => exact h
  | succ d => exact h.resolve_right fun h => h.elim (fun ⟨_, _, heq⟩ => harr _ heq) fun ⟨_, _, heq⟩ => hobj _ heq

theorem Spells.text {d : Nat} {s : String} {text : List Char} (h : Spells d (.str s) text) : SpellsText s text := by
  cases h.scalar nofun nofun with
  | str h => exact h

theorem Spells.number {d : Nat} {n : Int} {text : List Char} (h : Spells d (.int n) text) :
    SpellsScalar (.int n) text :=
  h.scalar nofun nofun

theorem Spells.fits {d : Nat} {n : Int} {text : List Char} (h : Spells d (.int n) text) : Fits64 n := by
  cases h.scalar nofun nofun with
  | int hn => exact hn

/-! ## whole texts -/

theorem endText_of_blank {inp : Input} (h : Blank inp.rest) : endText inp = .ok () := by
  have hrest : (inp.advance inp.rest.length).rest = [] := by rw [Input.rest_advance, List.drop_length]
  rw [skips_endText.behind h (List.append_nil _).symm]
  simp [endText, skipSpace_of_nil hrest]

theorem endText_of_nil {inp : Input} (h : inp.rest = []) : endText inp = .ok () :=
  endText_of_blank (h ▸ blank_nil)

end ViewSync.Json
