import ViewSync.Proofs.Json.Typed
import ViewSync.Source.DiagnosticJson

/-!
# ViewSync.Proofs.Source.DiagnosticJson

Diagnostics come back from their texts. The members of a diagnostic are read in any order, with others among them: those
of the span are kept with the unknown ones and looked up by name when the object has been read.

* `takes_member` — each member is read into its field, and unknown ones are kept;
* `finish_reading` — when all members have been read the diagnostic is there;
* `takes_read` — every text with the members of a diagnostic is read as that diagnostic;
* `diagnostics_survive` — diagnostics and collections of them come back from their own texts, and diagnostics from texts
  with another order and with other members.
-/

namespace ViewSync

open Json

namespace Span

/-! ## the numbers of a span -/

/-- The number of a span under a name. -/
def number (s : Span) : String → Nat
  | "line" => s.first.line
  | "column" => s.first.col
  | "end_line" => s.last.line
  | _ => s.last.col

theorem eq_number_of_mem {s : Span} {e : String × Json} (h : e ∈ s.toFields) : e.2 = .int (s.number e.1) := by
  simp only [toFields, List.mem_cons, List.not_mem_nil, or_false] at h
  obtain rfl | rfl | rfl | rfl := h <;> rfl

/-- Numbers under different names are all taken, and other fields are passed over. -/
theorem collect_eq {number : String → Nat} (hmax : ∀ name, number name ≤ maxNat32) {fields : List (String × Json)}
    (hfields : ∀ e ∈ fields, e.1 ∈ fieldNames → e.2 = .int (number e.1)) (seen : List (String × Nat))
    (hnodup : (seen.map Prod.fst ++ (Fields.names fields).filter (· ∈ fieldNames)).Nodup) :
    collect seen fields =
      .ok (seen ++ ((Fields.names fields).filter (· ∈ fieldNames)).map fun name => (name, number name)) := by
  induction fields generalizing seen with
  | nil => simp [collect, Fields.names]
  | cons e fields ih =>
      obtain ⟨hfirst, hrest⟩ := List.forall_mem_cons.1 hfields
      have hnames : Fields.names (e :: fields) = e.1 :: Fields.names fields := rfl
      rw [hnames, List.filter_cons] at hnodup ⊢
      by_cases hname : e.1 ∈ fieldNames
      · simp only [hname, decide_true, if_true] at hnodup ⊢
        have hnew : seen.any (·.1 == e.1) = false := by
          refine List.any_eq_false.2 fun x hx heq => ?_
          exact (List.nodup_append.1 hnodup).2.2 x.1 (List.mem_map_of_mem hx) e.1 List.mem_cons_self (eq_of_beq heq)
        have hread : e.2.natOf? maxNat32 = some (number e.1) := by simp [hfirst hname, natOf?, hmax]
        have hmore := ih hrest (seen ++ [(e.1, number e.1)]) (by simpa using hnodup)
        simp [collect, hname, hnew, hread, hmore]
      · simp only [hname, decide_false, Bool.false_eq_true, if_false] at hnodup ⊢
        simp [collect, hname, ih hrest seen hnodup]

theorem numberIn_eq (number : String → Nat) {names : List String} {name : String} (h : name ∈ names) :
    numberIn (names.map fun name => (name, number name)) name = .ok (number name) := by
  induction names with
  | nil => cases h
  | cons first names ih =>
      by_cases heq : first = name
      · simp [numberIn, heq]
      · have hmem : name ∈ names := (List.mem_cons.1 h).resolve_left (Ne.symm heq)
        simpa [numberIn, heq] using ih hmem

/-- A span is made of its numbers, whatever their order and whatever stands among them. -/
theorem ofFields_eq {s : Span} (hmax : ∀ name, s.number name ≤ maxNat32) {fields : List (String × Json)}
    (hfields : ∀ e ∈ fields, e.1 ∈ fieldNames → e.2 = .int (s.number e.1))
    (hnames : ((Fields.names fields).filter (· ∈ fieldNames)).Perm fieldNames) : ofFields fields = .ok s := by
  have hnodup : ((Fields.names fields).filter (· ∈ fieldNames)).Nodup := hnames.nodup_iff.2 (by decide)
  have hcollect := collect_eq hmax hfields [] hnodup
  have hnumber : ∀ name ∈ fieldNames, numberIn (((Fields.names fields).filter (· ∈ fieldNames)).map
      fun name => (name, s.number name)) name = .ok (s.number name) :=
    fun name hname => numberIn_eq s.number (hnames.mem_iff.2 hname)
  simp only [ofFields, hcollect, List.nil_append, bind, Except.bind]
  rw [hnumber "line" (by decide), hnumber "column" (by decide), hnumber "end_line" (by decide),
    hnumber "end_column" (by decide)]
  rfl

end Span

namespace Diagnostic

/-! ## the members of a diagnostic -/

/-- The numbers of a diagnostic are those of the wire: a code of 16 bits, lines and columns of 32. -/
structure Fits (d : Diagnostic) : Prop where
  code : d.code.number ≤ maxNat16
  line : d.span.first.line ≤ maxNat32
  col : d.span.first.col ≤ maxNat32
  endLine : d.span.last.line ≤ maxNat32
  endCol : d.span.last.col ≤ maxNat32

/-- The names of the members that are read as they come. -/
def ownNames : List String :=
  ["file", "code", "severity", "category", "message", "source_line", "suggestion"]

/-- The names that members of a diagnostic can have. -/
def memberNames : List String :=
  ownNames ++ Span.fieldNames

/-- The members of a diagnostic, in the order in which they are written. -/
def members (d : Diagnostic) : List (String × Json) :=
  [("file", .str d.file), ("code", .int d.code.number), ("severity", .str d.severity.word),
    ("category", .str d.category.word), ("message", .str d.message)] ++ d.span.toFields ++
    ("source_line", .str d.sourceLine) :: (d.suggestion.map fun s => ("suggestion", .str s)).toList

theorem toJson_eq (d : Diagnostic) : d.toJson = .obj d.members := by
  cases h : d.suggestion <;> simp [toJson, members, h]

theorem nodup_members (d : Diagnostic) : (Fields.names d.members).Nodup := by
  cases h : d.suggestion <;> simp [members, Fields.names, Span.toFields, h]

theorem memberNames_of_mem {d : Diagnostic} {e : String × Json} (he : e ∈ d.members) : e.1 ∈ memberNames := by
  have hnames : ∀ name ∈ Fields.names d.members, name ∈ memberNames := by
    cases h : d.suggestion <;> simp [members, Fields.names, Span.toFields, memberNames, ownNames, Span.fieldNames, h]
  exact hnames e.1 (List.mem_map_of_mem he)

theorem notMem_ownNames_of_span {s : Span} {e : String × Json} (he : e ∈ s.toFields) : e.1 ∉ ownNames := by
  simp only [Span.toFields, List.mem_cons, List.not_mem_nil, or_false] at he
  obtain rfl | rfl | rfl | rfl := he <;> simp [ownNames]

theorem mem_span_of_mem {d : Diagnostic} {e : String × Json} (he : e ∈ d.members) (hname : e.1 ∈ Span.fieldNames) :
    e ∈ d.span.toFields := by
  by_contra hspan
  have hnames : ∀ name ∈ ownNames, name ∉ Span.fieldNames := by decide
  simp only [members, List.mem_append, hspan, or_false, List.mem_cons, List.not_mem_nil, Option.mem_toList,
    Option.map_eq_some_iff] at he
  refine hnames e.1 ?_ hname
  obtain (rfl | rfl | rfl | rfl | rfl) | rfl | ⟨s, -, rfl⟩ := he <;> simp [ownNames]

theorem Fits.number_le {d : Diagnostic} (hfits : d.Fits) (name : String) : d.span.number name ≤ maxNat32 := by
  unfold Span.number
  split
  · exact hfits.line
  · exact hfits.col
  · exact hfits.endLine
  · exact hfits.endCol

/-! ## the members of a diagnostic, one by one -/

/-- What has been read of a diagnostic behind some of its members. -/
def reading (d : Diagnostic) (front : List (String × Json)) : Partial :=
  ⟨seen front "file" d.file, seen front "code" d.code.number, seen front "severity" d.severity,
    seen front "category" d.category, seen front "message" d.message, seen front "source_line" d.sourceLine,
    seen front "suggestion" d.suggestion, front.filter (·.1 ∉ ownNames)⟩

theorem find?_severities (s : Severity) : severities.find? (·.1 == s.word) = some (s.word, s) := by
  cases s <;> rfl

theorem find?_categories (c : Category) : categories.find? (·.1 == c.word) = some (c.word, c) := by
  cases c <;> rfl

section

variable {d : Diagnostic} {depth : Nat} {front : List (String × Json)} {name : String} {text : List Char}

/-- A member that has no field of its own is read as any value. -/
theorem member_of_other (hother : name ∉ ownNames) (p : Partial) : Partial.member depth p name =
    behindColon (readValue depth) fun v => { p with others := p.others ++ [(name, v)] } := by
  funext inp
  simp only [ownNames, List.mem_cons, List.not_mem_nil, or_false, not_or] at hother
  simp [Partial.member, behindColon, hother]

/-- Such a member is kept as it is. -/
theorem takes_other {v : Json} (hother : name ∉ ownNames) (h : SpellsBehind (Json.Spells depth) v text) :
    Takes (Partial.member depth (d.reading front) name) text (d.reading (front ++ [(name, v)])) := by
  have hne : ∀ own ∈ ownNames, own ≠ name := fun own hown heq => hother (heq ▸ hown)
  have hstate : d.reading (front ++ [(name, v)]) =
      { d.reading front with others := (d.reading front).others ++ [(name, v)] } := by
    simp only [ownNames, List.forall_mem_cons] at hne
    simp [reading, seen_append_of_ne, hne, hother]
  rw [member_of_other hother, hstate]
  exact h.takes (skips_readNested .exact depth) (fun text htext => takes_spells htext) _

/-- A member that is a string is read into its field. -/
theorem takes_text {s : String} (set : String → Partial)
    (hmember : ∀ inp, Partial.member depth (d.reading front) name inp =
      once name (seen front name s) (readText "a string") set inp)
    (hstate : d.reading (front ++ [(name, .str s)]) = set s) (hnew : name ∉ Fields.names front)
    (h : SpellsBehind (Json.Spells depth) (.str s) text) :
    Takes (Partial.member depth (d.reading front) name) text (d.reading (front ++ [(name, .str s)])) :=
  takes_field set hmember hstate hnew h (skips_readText _) fun _ h => takes_readText _ h.text

/-- A member that is one of several names is read into its field. -/
theorem takes_choice {α : Type} {choices : List (String × α)} {word : String} {a : α}
    (hfind : choices.find? (·.1 == word) = some (word, a)) (set : α → Partial)
    (hmember : ∀ inp, Partial.member depth (d.reading front) name inp =
      once name (seen front name a) (readChoice depth choices) set inp)
    (hstate : d.reading (front ++ [(name, .str word)]) = set a) (hnew : name ∉ Fields.names front)
    (h : SpellsBehind (Json.Spells depth) (.str word) text) :
    Takes (Partial.member depth (d.reading front) name) text (d.reading (front ++ [(name, .str word)])) :=
  takes_field set hmember hstate hnew h (skips_readChoice _ _) fun _ h => takes_readChoice _ hfind h.text

/-- A member with a field of its own is read into that field, if no member of its name stands in front. -/
theorem takes_own (hfits : d.Fits) {v : Json} (hnew : name ∉ Fields.names front) (hown : name ∈ ownNames)
    (hmem : (name, v) ∈ d.members) (h : SpellsBehind (Json.Spells depth) v text) :
    Takes (Partial.member depth (d.reading front) name) text (d.reading (front ++ [(name, v)])) := by
  have hspan : (name, v) ∉ d.span.toFields := fun hmem => notMem_ownNames_of_span hmem hown
  simp only [members, List.mem_append, hspan, or_false, List.mem_cons, Prod.mk.injEq, List.not_mem_nil,
    Option.mem_toList, Option.map_eq_some_iff] at hmem
  obtain (⟨rfl, rfl⟩ | ⟨rfl, rfl⟩ | ⟨rfl, rfl⟩ | ⟨rfl, rfl⟩ | ⟨rfl, rfl⟩) | ⟨rfl, rfl⟩ | ⟨s, hs, rfl, rfl⟩ := hmem
  · refine takes_text (fun s => { d.reading front with file := some s }) (fun inp => ?_) ?_ hnew h
    all_goals simp [Partial.member, reading, seen_append_of_ne, ownNames]
  · refine takes_field (fun n => { d.reading front with code := some n }) (fun inp => ?_) ?_ hnew h
      (skips_readNat _ "u16") fun _ h => takes_readNat _ hfits.code h.number
    all_goals simp [Partial.member, reading, seen_append_of_ne, ownNames]
  · refine takes_choice (find?_severities _) (fun s => { d.reading front with severity := some s })
      (fun inp => ?_) ?_ hnew h
    all_goals simp [Partial.member, reading, seen_append_of_ne, ownNames]
  · refine takes_choice (find?_categories _) (fun c => { d.reading front with category := some c })
      (fun inp => ?_) ?_ hnew h
    all_goals simp [Partial.member, reading, seen_append_of_ne, ownNames]
  · refine takes_text (fun s => { d.reading front with message := some s }) (fun inp => ?_) ?_ hnew h
    all_goals simp [Partial.member, reading, seen_append_of_ne, ownNames]
  · refine takes_text (fun s => { d.reading front with sourceLine := some s }) (fun inp => ?_) ?_ hnew h
    all_goals simp [Partial.member, reading, seen_append_of_ne, ownNames]
  · refine takes_field (fun s => { d.reading front with suggestion := some s }) (fun inp => ?_) ?_ hnew h
      (skips_readOptional (readText "a string")) fun _ h => hs ▸ takes_readOptional _ h.text
    all_goals simp [Partial.member, reading, seen_append_of_ne, ownNames]

end

/-! ## reading a diagnostic -/

section

variable {d : Diagnostic} {entries extras : List (String × Json)}

theorem notMem_of_extras (hextras : ∀ e ∈ extras, e.1 ∉ memberNames) : ∀ e ∈ extras, e.1 ∉ Fields.names d.members := by
  intro e he hmem
  obtain ⟨x, hx, heq⟩ := List.mem_map.1 hmem
  exact hextras e he (heq ▸ memberNames_of_mem hx)

/-- A member with one of the names of a diagnostic is one of its members. -/
theorem mem_members (horder : entries.Perm (d.members ++ extras)) (hextras : ∀ e ∈ extras, e.1 ∉ memberNames)
    {e : String × Json} (he : e ∈ entries) (hname : e.1 ∈ memberNames) : e ∈ d.members :=
  (List.mem_append.1 (horder.mem_iff.1 he)).resolve_right fun hmem => hextras e hmem hname

/-- Each member is read, in any order and with others among them. -/
theorem takes_member (hfits : d.Fits) (horder : entries.Perm (d.members ++ extras))
    (hextras : ∀ e ∈ extras, e.1 ∉ memberNames) {depth : Nat} (front : List (String × Json)) (e : String × Json)
    (back : List (String × Json)) (hall : entries = front ++ e :: back) (text : List Char)
    (h : SpellsBehind (Json.Spells depth) e.2 text) :
    Takes (Partial.member depth (d.reading front) e.1) text (d.reading (front ++ [e])) := by
  by_cases hown : e.1 ∈ ownNames
  · have hmem := mem_members horder hextras (hall ▸ List.mem_append_right _ List.mem_cons_self)
      (List.mem_append_left _ hown)
    have honce := filter_name_of_perm horder d.nodup_members (notMem_of_extras hextras) hmem
    exact takes_own hfits (notMem_front (hall ▸ honce)) hown hmem h
  · exact takes_other hown h

/-- The span is found among the members that have been kept, whatever their order. -/
theorem ofFields_reading (hfits : d.Fits) (horder : entries.Perm (d.members ++ extras))
    (hextras : ∀ e ∈ extras, e.1 ∉ memberNames) : Span.ofFields (d.reading entries).others = .ok d.span := by
  refine Span.ofFields_eq hfits.number_le (fun e he hname => ?_) ?_
  · have hmem := mem_members horder hextras (List.mem_filter.1 he).1 (List.mem_append_right _ hname)
    exact Span.eq_number_of_mem (mem_span_of_mem hmem hname)
  · have hnames : (Fields.names extras).filter (· ∈ Span.fieldNames) = [] := by
      refine List.filter_eq_nil_iff.2 fun name hname hmem => ?_
      obtain ⟨e, he, rfl⟩ := List.mem_map.1 hname
      exact hextras e he (List.mem_append_right _ (of_decide_eq_true hmem))
    have hmembers : (Fields.names d.members).filter (· ∈ Span.fieldNames) = Span.fieldNames := by
      cases h : d.suggestion <;> simp [members, Fields.names, Span.toFields, Span.fieldNames, h]
    have hkept : (Fields.names (d.reading entries).others).filter (· ∈ Span.fieldNames) =
        (Fields.names entries).filter (· ∈ Span.fieldNames) := by
      have hnames : ∀ name ∈ ownNames, name ∉ Span.fieldNames := by decide
      simp only [reading, Fields.names, List.filter_map, List.filter_filter]
      refine congrArg _ (List.filter_congr fun e _ => ?_)
      by_cases hown : e.1 ∈ ownNames <;> simp [hown, hnames]
    have hfiltered := (horder.map Prod.fst).filter (· ∈ Span.fieldNames)
    rw [List.map_append, List.filter_append] at hfiltered
    rw [hkept]
    exact hfiltered.trans (.of_eq (by rw [← Fields.names, ← Fields.names, hmembers, hnames, List.append_nil]))

/-- When all members have been read, the diagnostic is there. -/
theorem finish_reading (hfits : d.Fits) (horder : entries.Perm (d.members ++ extras))
    (hextras : ∀ e ∈ extras, e.1 ∉ memberNames) : (d.reading entries).finish = .ok d := by
  have hseen : ∀ {α : Type} (e : String × Json) (a : α), e ∈ d.members → seen entries e.1 a = some a :=
    fun e a he => seen_of_mem (List.mem_map_of_mem (horder.mem_iff.2 (List.mem_append_left _ he))) a
  have hfile := hseen ("file", .str d.file) d.file (by simp [members])
  have hcode := hseen ("code", .int d.code.number) d.code.number (by simp [members])
  have hseverity := hseen ("severity", .str d.severity.word) d.severity (by simp [members])
  have hcategory := hseen ("category", .str d.category.word) d.category (by simp [members])
  have hmessage := hseen ("message", .str d.message) d.message (by simp [members])
  have hsource := hseen ("source_line", .str d.sourceLine) d.sourceLine (by simp [members])
  have hsuggestion : (seen entries "suggestion" d.suggestion).getD none = d.suggestion := by
    cases hs : d.suggestion with
    | none => rw [seen]; split <;> rfl
    | some s => rw [hseen ("suggestion", .str s) (some s) (by simp [members, hs])]; rfl
  simp only [Partial.finish, ofFields_reading hfits horder hextras]
  simp [reading, hfile, hcode, hseverity, hcategory, hmessage, hsource, hsuggestion, required, Except.mapError, bind,
    Except.bind, pure, Except.pure]

end

theorem skips_read (depth : Nat) : Skips (read depth) := fun inp => by
  simp only [read, readObject, Input.skipSpace_skipSpace]

/-- A text with the members of a diagnostic is read as that diagnostic, in any order and with others among them. -/
theorem takes_read {d : Diagnostic} (hfits : d.Fits) {entries extras : List (String × Json)}
    (horder : entries.Perm (d.members ++ extras)) (hextras : ∀ e ∈ extras, e.1 ∉ memberNames) {depth : Nat}
    (hdepth : 0 < depth) {object : List Char} (h : SpellsObject (Json.Spells (depth - 1)) entries object) :
    Takes (read depth) object d := by
  have hobject := takes_readObject hdepth "struct SourceError" h d.reading (takes_member hfits horder hextras)
  intro inp rest hinp ends
  obtain ⟨next, hread, hnext⟩ := hobject inp rest hinp ends
  refine ⟨next, ?_, hnext⟩
  have hstart : d.reading [] = .empty := rfl
  rw [hstart] at hread
  simp [read, hread, finish_reading hfits horder hextras, finished, bind, Except.bind]

theorem decode_spells {d : Diagnostic} (hfits : d.Fits) {entries extras : List (String × Json)}
    (horder : entries.Perm (d.members ++ extras)) (hextras : ∀ e ∈ extras, e.1 ∉ memberNames) {text : String}
    (h : SpellsEntries (maxDepth - 1) entries text) : decode text = .ok d := by
  obtain ⟨space, object, space', hspace, hobject, hspace', htext⟩ := h
  exact (takes_read hfits horder hextras (by decide) hobject).decode (skips_read _) hspace hspace' htext

/-! ## the text of a diagnostic -/

theorem fits64_of_le {n : Nat} (h : n ≤ maxNat32) : Fits64 n := by
  have hle : n ≤ Decimal.maxNat64 := Nat.le_trans h (by decide)
  exact ⟨by omega, by exact_mod_cast hle⟩

/-- The members of a diagnostic are strings and numbers. -/
theorem plain_members {d : Diagnostic} (hfits : d.Fits) : ∀ e ∈ d.members, e.2.isPlain = true ∧ e.2.depth = 0 := by
  have htext : ∀ s : String, (Json.str s).isPlain = true ∧ (Json.str s).depth = 0 := fun s => ⟨rfl, rfl⟩
  have hnumber : ∀ n : Nat, n ≤ maxNat32 → (Json.int n).isPlain = true ∧ (Json.int n).depth = 0 :=
    fun n h => ⟨by simpa [isPlain] using fits64_of_le h, rfl⟩
  have hcode := hnumber _ (Nat.le_trans hfits.code (by decide))
  cases h : d.suggestion <;>
    simp [members, Span.toFields, h, htext, hcode, hnumber _ hfits.line, hnumber _ hfits.col, hnumber _ hfits.endLine,
      hnumber _ hfits.endCol]

/-- The text of a diagnostic holds its members. -/
theorem spellsObject_members {d : Diagnostic} (hfits : d.Fits) (depth : Nat) :
    SpellsObject (Json.Spells depth) d.members d.toJson.render.toList := by
  rw [toJson_eq]
  refine spellsObject_render fun e he => ?_
  obtain ⟨hplain, hdepth⟩ := plain_members hfits e he
  exact spells_render hplain (hdepth ▸ Nat.zero_le depth)

/-- A diagnostic is read from its own text. -/
theorem takes_render {d : Diagnostic} (hfits : d.Fits) {depth : Nat} (hdepth : 0 < depth) :
    Takes (read depth) d.toJson.render.toList d := by
  have horder : d.members.Perm (d.members ++ []) := .of_eq (List.append_nil _).symm
  exact takes_read hfits horder nofun hdepth (spellsObject_members hfits _)

theorem decode_render {d : Diagnostic} (hfits : d.Fits) : decode d.encode = .ok d := by
  have htakes : Takes (read maxDepth) d.encode.toList d := takes_render hfits (by decide)
  exact htakes.decode (skips_read maxDepth) blank_nil blank_nil (by simp)

end Diagnostic

namespace Diagnostics

/-! ## collections -/

/-- The diagnostics of a collection have the numbers of the wire, and there are no more than 64 bits can count. -/
structure Fits (ds : Diagnostics) : Prop where
  stored : ∀ d ∈ ds.stored, d.Fits
  total : ds.total ≤ Decimal.maxNat64

/-- The members of a collection. -/
def members (ds : Diagnostics) : List (String × Json) :=
  [("errors", .arr (ds.stored.map Diagnostic.toJson)), ("total_errors", .int ds.total)]

theorem nodup_members (ds : Diagnostics) : (Fields.names ds.members).Nodup := by
  simp [members, Fields.names]

/-- What has been read of a collection behind some of its members. -/
def reading (ds : Diagnostics) (front : List (String × Json)) : Option (List Diagnostic) × Option Nat :=
  (seen front "errors" ds.stored, seen front "total_errors" ds.total)

/-- The diagnostics of a collection are read one by one. -/
theorem takes_stored {ds : Diagnostics} (hfits : ds.Fits) {depth : Nat} (hdepth : 1 < depth) :
    Takes (readStored depth) (Json.render (.arr (ds.stored.map Diagnostic.toJson))).toList ds.stored := by
  have htext : (Json.render (.arr (ds.stored.map Diagnostic.toJson))).toList =
      '[' :: (parts true (ds.stored.map fun d => d.toJson.render.toList) ++ [']']) := by
    rw [Json.render]
    simp [toList_renderItems, Function.comp_def]
  rw [htext]
  refine takes_readArray (Nat.zero_lt_of_lt hdepth) fun d hd => ⟨?_, ?_⟩
  · exact Diagnostic.takes_render (hfits.stored d hd) (Nat.sub_pos_of_lt hdepth)
  · obtain ⟨row, -, hrow⟩ := Diagnostic.spellsObject_members (hfits.stored d hd) 0
    exact ⟨'\x7b', _, hrow, rfl, by decide⟩

/-- Each member of a collection is read from its own text. -/
theorem takes_member {ds : Diagnostics} (hfits : ds.Fits) {depth : Nat} (hdepth : 1 < depth)
    (front : List (String × Json)) (e : String × Json) (back : List (String × Json))
    (hall : ds.members = front ++ e :: back) (text : List Char)
    (h : SpellsBehind (fun v text => text = v.render.toList) e.2 text) :
    Takes (member depth (ds.reading front) e.1) text (ds.reading (front ++ [e])) := by
  have hmem : e ∈ ds.members := hall ▸ List.mem_append_right _ List.mem_cons_self
  have hnew := notMem_front (hall ▸ filter_name_of_nodup ds.nodup_members hmem)
  have hcount : (Json.render (.int ds.total)).toList = (toString (ds.total : Int)).toList := by rw [Json.render]
  obtain ⟨name, v⟩ := e
  simp only [members, List.mem_cons, Prod.mk.injEq, List.not_mem_nil, or_false] at hmem
  obtain ⟨rfl, rfl⟩ | ⟨rfl, rfl⟩ := hmem
  · refine takes_field (fun stored => (some stored, (ds.reading front).2)) (fun inp => ?_) ?_ hnew h
      (skips_readArray _ _) fun _ htext => htext ▸ takes_stored hfits hdepth
    · simp [member, reading, readStored]
    · simp [reading, seen_append_of_ne]
  · refine takes_field (fun total => ((ds.reading front).1, some total)) (fun inp => ?_) ?_ hnew h
      (skips_readNat _ "usize") fun _ htext => takes_readNat _ hfits.total ?_
    · simp [member, reading, readTotal]
    · simp [reading, seen_append_of_ne]
    · rw [htext, hcount]
      exact .int ⟨by omega, by exact_mod_cast hfits.total⟩

theorem skips_read (depth : Nat) : Skips (read depth) := fun inp => by
  simp only [read, readObject, Input.skipSpace_skipSpace]

/-- A collection is read from its own text. -/
theorem takes_render {ds : Diagnostics} (hfits : ds.Fits) {depth : Nat} (hdepth : 2 < depth) :
    Takes (read depth) ds.toJson.render.toList ds := by
  have hspells : SpellsObject (fun v text => text = v.render.toList) ds.members ds.toJson.render.toList :=
    spellsObject_render fun _ _ => rfl
  have hinner : 1 < depth - 1 := Nat.lt_sub_of_add_lt hdepth
  have hobject := takes_readObject (Nat.zero_lt_of_lt hdepth) "struct CompileErrors" hspells ds.reading
    (takes_member hfits hinner)
  intro inp rest hinp ends
  obtain ⟨next, hread, hnext⟩ := hobject inp rest hinp ends
  refine ⟨next, ?_, hnext⟩
  obtain ⟨cs, hopen⟩ := hspells.exists_cons hinp
  have hstart : ds.reading [] = (none, none) := rfl
  have hend : ds.reading ds.members = (some ds.stored, some ds.total) := rfl
  rw [hstart, hend] at hread
  simp [read, skipSpace_of_cons hopen rfl, hopen, hread, finish, finished, required, bind, Except.bind, pure,
    Except.pure]

theorem decode_render {ds : Diagnostics} (hfits : ds.Fits) : decode ds.encode = .ok ds := by
  have htakes : Takes (read maxDepth) ds.encode.toList ds := takes_render hfits (by decide)
  exact htakes.decode (skips_read maxDepth) blank_nil blank_nil (by simp)

end Diagnostics

/-- A diagnostic comes back from its text, and so it does from every text with its members, in any order and with others
among them that have other names and any values which are read at all: all but those that nest too deep and numbers
beyond all doubles. A collection comes back from its text. -/
theorem diagnostics_survive :
    (∀ d : Diagnostic, d.Fits → Diagnostic.decode d.encode = .ok d ∧
      ∀ (entries extras : List (String × Json)) (text : String), SpellsEntries (maxDepth - 1) entries text →
        entries.Perm (d.members ++ extras) → (∀ e ∈ extras, e.1 ∉ Diagnostic.memberNames) →
        Diagnostic.decode text = .ok d) ∧
      ∀ ds : Diagnostics, ds.Fits → Diagnostics.decode ds.encode = .ok ds := by
  refine ⟨fun d hfits => ⟨Diagnostic.decode_render hfits, ?_⟩, fun ds hfits => Diagnostics.decode_render hfits⟩
  intro entries extras text htext horder hextras
  exact Diagnostic.decode_spells hfits horder hextras htext

/-- The greatest numbers, a quote and a line break in the texts, the members from the last to the first, and members of
other names, one that nests and one that is a double. -/
theorem diagnostics_survive_reversed :
    let d : Diagnostic :=
      ⟨"a \"b\".py", ⟨0xffff⟩, .warning, .scope, "line\nbreak", ⟨⟨0xffffffff, 0⟩, ⟨1, 0xffffffff⟩⟩, "\t\u00e9", some ""⟩
    let note : String × Json := ("note", .arr [.null, .obj [("line", .int (-1))]])
    let score : String × Json := ("score", .float (scaleDown (Float.ofNat 5) 1))
    let extras := [note, score]
    let text := "\x7b\"score\":0.5," ++ renderMembers (note :: d.members.reverse) ++ "\x7d"
    let ds : Diagnostics := ⟨[d, { d with suggestion := none }], 21⟩
    d.Fits ∧ (∀ e ∈ extras, e.1 ∉ Diagnostic.memberNames) ∧ ds.Fits ∧ Diagnostic.decode d.encode = .ok d ∧
      Diagnostic.decode text = .ok d ∧ Diagnostics.decode ds.encode = .ok ds := by
  intro d note score extras text ds
  have hfits : d.Fits := by constructor <;> decide
  have hextras : ∀ e ∈ extras, e.1 ∉ Diagnostic.memberNames := by
    simp [extras, note, score, Diagnostic.memberNames, Diagnostic.ownNames, Span.fieldNames]
  have hall : ds.Fits := by
    refine ⟨List.forall_mem_cons.2 ⟨hfits, List.forall_mem_singleton.2 ?_⟩, by decide⟩
    constructor <;> decide
  obtain ⟨hown, hothers⟩ := diagnostics_survive.1 d hfits
  have hscore : SpellsMember (Json.Spells (maxDepth - 1)) score "\"score\":0.5".toList := by
    let half : Numeral := ⟨false, ['0'], some ['5'], none, by simp [IsDigits], by simp, by simp [IsDigits]⟩
    have hzero : absorb 0 ['0'] = (0, 1) := by decide
    have hfive : absorb 0 ['5'] = (5, 1) := by decide
    have hvalue : half.value? = some score.2 := by
      simp only [half, Numeral.value?, hzero, Numeral.valueBehind?, hfive, Numeral.double?, scale?]
      rfl
    exact ⟨_, _, spellsText_quote "score",
      ⟨[], [], half.text, blank_nil, blank_nil, .inl (.float hvalue), rfl⟩, rfl⟩
  have hrest : ∀ e ∈ note :: d.members.reverse, SpellsMember (Json.Spells (maxDepth - 1)) e (memberText e) := by
    have hplain : ∀ e ∈ note :: d.members.reverse, e.2.isPlain = true ∧ e.2.depth ≤ maxDepth - 1 := by decide
    exact fun e he => spellsMember_memberText (spells_render (hplain e he).1 (hplain e he).2)
  have htext : SpellsEntries (maxDepth - 1) (score :: note :: d.members.reverse) text := by
    have hrow := Listed.first blank_nil hscore (listed_parts hrest false)
    refine ⟨[], _, [], blank_nil, ⟨_, hrow, rfl⟩, blank_nil, ?_⟩
    simp [text, toList_renderMembers, parts]
  have horder : (score :: note :: d.members.reverse).Perm (d.members ++ extras) :=
    List.reverse_perm (d.members ++ extras)
  exact ⟨hfits, hextras, hall, hown, hothers _ extras text htext horder hextras, diagnostics_survive.2 ds hall⟩

namespace Diagnostic

/-! ## members that nest too deep -/

/-- A member of another name must not nest as deep as the object itself may. -/
theorem read_of_deep {depth : Nat} (hdepth : 0 < depth) {name : String} (hname : name ∉ memberNames) {inp : Input}
    {rest : List Char}
    (hinp : inp.rest = '\x7b' :: ((quote name).toList ++ ':' :: (List.replicate depth '[' ++ rest))) :
    ∃ place, read depth inp = .error (.at_ .recursionLimit place) := by
  obtain ⟨depth, rfl⟩ := Nat.exists_eq_add_one_of_ne_zero (Nat.ne_of_gt hdepth)
  have hbehind : (inp.advance 1).rest =
      [] ++ ((quote name).toList ++ ':' :: (List.replicate (depth + 1) '[' ++ rest)) := by
    rw [Input.rest_advance, hinp, List.drop_one, List.tail_cons, List.nil_append]
  obtain ⟨next, hkey, hnext⟩ := nextKey_first blank_nil (spellsText_quote name) hbehind
  obtain ⟨value, hcolon, hvalue⟩ := colon_behind blank_nil hnext
  obtain ⟨place, hdeep⟩ := readNested_of_deep .exact hvalue
  refine ⟨place, ?_⟩
  have hother : name ∉ ownNames := fun hown => hname (List.mem_append_left _ hown)
  have hmember : Partial.member depth .empty name next = .error (.at_ .recursionLimit place) := by
    rw [member_of_other hother]
    simp only [behindColon, hcolon, readValue, hdeep, bind, Except.bind]
  simp only [read, readObject, skipSpace_of_cons hinp rfl, hinp, Nat.add_one_ne_zero, if_false]
  rw [readMembers, hkey]
  simp only [bind, Except.bind, Nat.add_sub_cancel, hmember]

theorem decode_of_deep {name : String} (hname : name ∉ memberNames) {text : String} {rest : List Char}
    (htext : text.toList = '\x7b' :: ((quote name).toList ++ ':' :: (List.replicate maxDepth '[' ++ rest))) :
    ∃ place, decode text = .error (.at_ .recursionLimit place) := by
  have hstart : (Input.start text).rest = text.toList := rfl
  obtain ⟨place, hread⟩ := read_of_deep (by decide) hname (hstart.trans htext)
  exact ⟨place, by rw [decode, Json.decode, hread]; rfl⟩

/-- So many arrays, one in the other. -/
def nest : Nat → Json
  | 0 => .null
  | n + 1 => .arr [nest n]

theorem plain_nest (n : Nat) : (nest n).isPlain = true ∧ (nest n).depth = n := by
  induction n with
  | zero => exact ⟨rfl, rfl⟩
  | succ n ih => simpa [nest, isPlain, arePlain, depth, depthItems] using ih

theorem toList_render_nest (n : Nat) : ∃ rest, (nest n).render.toList = List.replicate n '[' ++ rest := by
  induction n with
  | zero => exact ⟨_, rfl⟩
  | succ n ih =>
      obtain ⟨rest, ih⟩ := ih
      refine ⟨rest ++ [']'], ?_⟩
      rw [nest, Json.render]
      simp [renderItems, ih, List.replicate_succ]

/-- The text of an object whose first member nests. -/
theorem toList_render_obj_nest (name : String) (n : Nat) (members : List (String × Json)) :
    ∃ rest, (Json.render (.obj ((name, nest n) :: members))).toList =
      '\x7b' :: ((quote name).toList ++ ':' :: (List.replicate n '[' ++ rest)) := by
  obtain ⟨rest, hrest⟩ := toList_render_nest n
  refine ⟨rest ++ (parts false (members.map memberText) ++ ['\x7d']), ?_⟩
  rw [Json.render]
  simp [toList_renderMembers, parts, memberText, hrest]

theorem spellsEntries_nest {d : Diagnostic} (hfits : d.Fits) (name : String) (n : Nat) :
    SpellsEntries n ((name, nest n) :: d.members) (Json.render (.obj ((name, nest n) :: d.members))) := by
  refine ⟨[], _, [], blank_nil, spellsObject_render (List.forall_mem_cons.2 ⟨?_, fun e he => ?_⟩), blank_nil, by simp⟩
  · exact spells_render (plain_nest n).1 (Nat.le_of_eq (plain_nest n).2)
  · obtain ⟨hplain, hdepth⟩ := plain_members hfits e he
    exact spells_render hplain (hdepth ▸ Nat.zero_le n)

/-- With a member of another name that holds as many arrays as a text may nest, and so is too deep by one, a diagnostic
does not come back. -/
theorem deep_member_refused :
    let d : Diagnostic := ⟨"view.py", ⟨200⟩, .error, .unsupported, "m", ⟨⟨3, 9⟩, ⟨3, 14⟩⟩, "x", none⟩
    let extra : String × Json := ("note", nest maxDepth)
    let text := Json.render (.obj (extra :: d.members))
    d.Fits ∧ extra.1 ∉ memberNames ∧ SpellsEntries maxDepth (extra :: d.members) text ∧
      (extra :: d.members).Perm (d.members ++ [extra]) ∧ decode text ≠ .ok d := by
  intro d extra text
  have hfits : d.Fits := by constructor <;> decide
  have hname : "note" ∉ memberNames := by decide
  obtain ⟨rest, htext⟩ := toList_render_obj_nest "note" maxDepth d.members
  obtain ⟨place, hdecode⟩ := decode_of_deep hname htext
  have hrefused : decode text ≠ .ok d := by
    intro heq
    cases hdecode.symm.trans heq
  exact ⟨hfits, hname, spellsEntries_nest hfits "note" maxDepth,
    (List.perm_append_singleton extra d.members).symm, hrefused⟩

end Diagnostic

end ViewSync
