import ViewSync.Proofs.Json.Typed
import ViewSync.Wire.Message

/-!
# ViewSync.Proofs.Wire.Message

A frame is decoded as the message it was made from (`decode_encode`). The kind is read first, since it stands
first; the other fields are kept as they are until the whole object has been read, and only then sorted into
the layout of the kind.

* `readMembers_members` — the members of a frame are read as its kind and its fields;
* `ofContent_fields` — the fields of a message are those that its kind asks for;
* `decode_encode` — decoding undoes encoding, for plain messages that are not too deep.
-/

namespace ViewSync.Message

open Json

/-! ## the kind -/

theorem find?_kindNames (kind : Kind) : kindNames.find? (·.1 == kind.word) = some (kind.word, kind) := by
  cases kind <;> rfl

/-! ## the members of a frame -/

/-- What has been read of a frame of some kind behind some of its members: the kind, if it is among them, and the
others in their order. -/
def gathered (kind : Kind) (entries : List (String × Json)) : Option Kind × List (String × Json) :=
  (if entries.any (·.1 == "type") then some kind else none, entries.filter (·.1 != "type"))

/-- The only member that names the kind. -/
theorem takes_type {kind : Kind} {front : List (String × Json)} (hfront : ∀ e ∈ front, e.1 ≠ "type") {d : Nat}
    {text : List Char} (h : SpellsBehind (Json.Spells d) (.str kind.word) text) :
    Takes (readMember (gathered kind front) "type") text (gathered kind (front ++ [("type", .str kind.word)])) := by
  have hnone : front.any (·.1 == "type") = false := by simpa using hfront
  have hread : readMember (gathered kind front) "type" =
      behindColon (readName kindNames) fun kind => (some kind, front.filter (·.1 != "type")) := by
    funext inp
    simp [readMember, behindColon, gathered, hnone]
  have hall : gathered kind (front ++ [("type", .str kind.word)]) = (some kind, front.filter (·.1 != "type")) := by
    simp [gathered]
  rw [hread, hall]
  exact h.takes (skips_readName kindNames) (fun text htext => takes_readName (find?_kindNames kind) htext.text) _

/-- A member of another name is kept. -/
theorem takes_field {kind : Kind} {front : List (String × Json)} {e : String × Json} (other : e.1 ≠ "type")
    {text : List Char} (h : SpellsBehind (Json.Spells (maxDepth - 1)) e.2 text) :
    Takes (readMember (gathered kind front) e.1) text (gathered kind (front ++ [e])) := by
  have hread : readMember (gathered kind front) e.1 = behindColon (readValue (maxDepth - 1)) fun v =>
      ((gathered kind front).1, (gathered kind front).2 ++ [(e.1, v)]) := by
    funext inp
    simp [readMember, behindColon, other]
  have hall : gathered kind (front ++ [e]) = ((gathered kind front).1, (gathered kind front).2 ++ [(e.1, e.2)]) := by
    have hany : (front ++ [e]).any (·.1 == "type") = front.any (·.1 == "type") := by simp [other]
    rw [gathered, hany, List.filter_append]
    simp [gathered, other]
  rw [hread, hall]
  exact h.takes (skips_readNested .exact _) (fun text htext => takes_spells htext) _

/-- The members of a frame are read in any order, if its kind is named once. -/
theorem takes_member {kind : Kind} {all : List (String × Json)}
    (hkind : ∀ e ∈ all, e.1 = "type" → e.2 = .str kind.word) (honce : (all.map (·.1)).count "type" = 1)
    (front : List (String × Json)) (e : String × Json) (back : List (String × Json)) (hall : all = front ++ e :: back)
    (text : List Char) (h : SpellsBehind (Json.Spells (maxDepth - 1)) e.2 text) :
    Takes (readMember (gathered kind front) e.1) text (gathered kind (front ++ [e])) := by
  by_cases htype : e.1 = "type"
  · obtain ⟨_, v⟩ := e
    cases htype
    obtain rfl : v = .str kind.word := hkind ("type", v) (hall ▸ List.mem_append_right _ List.mem_cons_self) rfl
    refine takes_type (fun e he heq => ?_) h
    have hmem : "type" ∈ front.map (·.1) := heq ▸ List.mem_map_of_mem he
    have hcount := List.count_pos_iff.2 hmem
    simp only [hall, List.map_append, List.map_cons, List.count_append, List.count_cons_self] at honce
    omega
  · exact takes_field htype h

/-- The members of a frame: the kind stands first. -/
def members (m : Message) : List (String × Json) :=
  ("type", .str m.kind.word) :: m.fields

theorem fields_ne_type (m : Message) : ∀ e ∈ m.fields, e.1 ≠ "type" := by
  cases m <;> simp [fields]

theorem kind_of_mem_members (m : Message) : ∀ e ∈ m.members, e.1 = "type" → e.2 = .str m.kind.word := by
  intro e he htype
  obtain rfl | he := List.mem_cons.1 he
  · rfl
  · exact absurd htype (m.fields_ne_type e he)

theorem count_type_members (m : Message) : (m.members.map (·.1)).count "type" = 1 := by
  cases m <;> rfl

theorem gathered_members (m : Message) : gathered m.kind m.members = (some m.kind, m.fields) := by
  cases m <;> rfl

/-- The members of a frame are its kind and its fields, in their order. -/
theorem readMembers_members {m : Message} (plain : ∀ e ∈ m.fields, e.2.isPlain = true)
    (depth : ∀ e ∈ m.fields, e.2.depth ≤ maxDepth - 1) {bound : Nat}
    (enough : m.fields.length < bound) {inp : Input} {rest : List Char}
    (h : inp.rest = parts true (m.members.map memberText) ++ '\x7d' :: rest) :
    ∃ next, readMembers readString readMember (bound + 1) true (none, []) inp =
      .ok ((some m.kind, m.fields), next) ∧ next.rest = rest := by
  have hspells : ∀ e ∈ m.members, SpellsMember (Json.Spells (maxDepth - 1)) e (memberText e) :=
    List.forall_mem_cons.2 ⟨spellsMember_memberText (spells_render rfl (Nat.zero_le _)),
      fun e he => spellsMember_memberText (spells_render (plain e he) (depth e he))⟩
  have hall : m.members = [] ++ m.members := rfl
  rw [← gathered_members]
  exact readMembers_listed (gathered m.kind) (takes_member m.kind_of_mem_members m.count_type_members)
    (listed_parts hspells true) hall (Nat.succ_lt_succ enough) h

/-! ## the fields of a kind -/

/-- A number of 64 bits is the number of a component. -/
theorem check_id {id : ComponentId} (h : Fits64 id) : FieldType.id.check (.int id) = .ok () := by
  have hfits : id ≤ Decimal.maxNat64 := by exact_mod_cast h.2
  simp [FieldType.check, natOf?, hfits]

@[simp] theorem check_text (s : String) : FieldType.text.check (.str s) = .ok () := rfl

@[simp] theorem check_members (changes : Fields) : FieldType.members.check (.obj changes) = .ok () := rfl

@[simp] theorem check_any (v : Json) : FieldType.any.check v = .ok () := rfl

/-- Whether a layout has a field of some name. -/
def isKnown (layout : List (String × FieldType)) (e : String × Json) : Bool :=
  (layout.find? (·.1 == e.1)).isSome

/-- The fields of a layout are taken out in the order in which they stand, and the others are passed over. -/
theorem collect_eq {layout : List (String × FieldType)} {entries seen : List (String × Json)}
    (hcheck : ∀ e ∈ entries, ∀ field, layout.find? (·.1 == e.1) = some field → field.2.check e.2 = .ok ())
    (hnodup : (Fields.names (seen ++ entries.filter (isKnown layout))).Nodup) :
    collect layout seen entries = .ok (seen ++ entries.filter (isKnown layout)) := by
  induction entries generalizing seen with
  | nil => simp [collect]
  | cons e entries ih =>
      obtain ⟨hfirst, hrest⟩ := List.forall_mem_cons.1 hcheck
      cases hfind : layout.find? (·.1 == e.1) with
      | none =>
          have hunknown : isKnown layout e = false := by simp [isKnown, hfind]
          rw [List.filter_cons_of_neg (by simp [hunknown])] at hnodup ⊢
          simpa [collect, hfind] using ih hrest hnodup
      | some field =>
          have hknown : isKnown layout e = true := by simp [isKnown, hfind]
          rw [List.filter_cons_of_pos hknown] at hnodup ⊢
          have hnew : seen.any (·.1 == e.1) = false := by
            rw [Fields.names, List.map_append, List.map_cons] at hnodup
            simp only [List.any_eq_false, beq_iff_eq]
            intro e' he' heq
            exact (List.nodup_append.1 hnodup).2.2 e'.1 (List.mem_map_of_mem he') e.1 List.mem_cons_self heq
          have hstep : collect layout (seen ++ [e]) entries = .ok (seen ++ [e] ++ entries.filter (isKnown layout)) :=
            ih hrest (by simpa using hnodup)
          simpa [collect, hfind, hnew, hfirst field hfind, bind, Except.bind] using hstep

/-- A field that stands there once is found by its name. -/
theorem find?_of_nodup {entries : List (String × Json)} (hnodup : (Fields.names entries).Nodup) {e : String × Json}
    (he : e ∈ entries) : entries.find? (·.1 == e.1) = some e := by
  refine List.find?_eq_some_iff_append.2 ⟨beq_self_eq_true _, ?_⟩
  obtain ⟨front, back, rfl⟩ := List.append_of_mem he
  refine ⟨front, back, rfl, fun e' he' => ?_⟩
  rw [Fields.names, List.map_append, List.map_cons] at hnodup
  have hne := (List.nodup_append.1 hnodup).2.2 e'.1 (List.mem_map_of_mem he') e.1 List.mem_cons_self
  simpa using hne

/-- The values of fields are put into the order of the layout. -/
theorem inOrder_eq {seen fields : List (String × Json)} {layout : List (String × FieldType)}
    (hnames : layout.map (·.1) = fields.map (·.1)) (hfind : ∀ e ∈ fields, seen.find? (·.1 == e.1) = some e) :
    inOrder seen layout = .ok (fields.map (·.2)) := by
  induction layout generalizing fields with
  | nil =>
      cases List.map_eq_nil_iff.1 hnames.symm
      rfl
  | cons field layout ih =>
      obtain ⟨e, fields, rfl, he, hrest⟩ := List.map_eq_cons_iff.1 hnames.symm
      obtain ⟨hfirst, hmore⟩ := List.forall_mem_cons.1 hfind
      rw [he] at hfirst
      simp [inOrder, hfirst, ih hrest.symm hmore, bind, Except.bind, pure, Except.pure]

/-- A message has a value for each field that its kind asks for, of the type of that field. -/
theorem matches_layout {m : Message} (hfits : ∀ n : Int, ∀ name, (name, Json.int n) ∈ m.fields → Fits64 n) :
    ∀ field ∈ m.kind.layout, ∃ e ∈ m.fields, e.1 = field.1 ∧ field.2.check e.2 = .ok () := by
  have hid : ∀ id : ComponentId, ("comp_id", .int id) ∈ m.fields → FieldType.id.check (.int id) = .ok () :=
    fun id hmem => check_id (hfits id _ hmem)
  cases m with
  | define viewRef name source =>
      exact List.forall_mem_cons.2 ⟨⟨_, .head _, rfl, rfl⟩, List.forall_mem_cons.2
        ⟨⟨_, .tail _ (.head _), rfl, rfl⟩, List.forall_mem_singleton.2 ⟨_, .tail _ (.tail _ (.head _)), rfl, rfl⟩⟩⟩
  | delete id => exact List.forall_mem_singleton.2 ⟨_, .head _, rfl, hid id (.head _)⟩
  | create id viewRef | change id changes | request id payload =>
      exact List.forall_mem_cons.2 ⟨⟨_, .head _, rfl, hid id (.head _)⟩,
        List.forall_mem_singleton.2 ⟨_, .tail _ (.head _), rfl, rfl⟩⟩

theorem layout_kind (m : Message) : m.kind.layout.map (·.1) = m.fields.map (·.1) := by
  cases m <;> rfl

theorem nodup_fields (m : Message) : (Fields.names m.fields).Nodup := by
  have hlayout : ∀ kind : Kind, (kind.layout.map (·.1)).Nodup := by
    intro kind
    cases kind <;> decide
  rw [Fields.names, ← layout_kind]
  exact hlayout m.kind

theorem ofValues?_fields (m : Message) : ofValues? m.kind (m.fields.map (·.2)) = some m := by
  cases m <;> rfl

theorem isKnown_iff {m : Message} {e : String × Json} :
    isKnown m.kind.layout e = true ↔ e.1 ∈ Fields.names m.fields := by
  rw [Fields.names, ← layout_kind, isKnown, List.find?_isSome, List.mem_map]
  exact exists_congr fun field => and_congr_right fun _ => beq_iff_eq

/-- A field of the layout has the type of the value of its name. -/
theorem check_fields {m : Message} (hfits : ∀ n : Int, ∀ name, (name, Json.int n) ∈ m.fields → Fits64 n)
    {e : String × Json} (he : e ∈ m.fields) {field : String × FieldType}
    (hfield : m.kind.layout.find? (·.1 == e.1) = some field) : field.2.check e.2 = .ok () := by
  have hname : field.1 = e.1 := by simpa using List.find?_some hfield
  obtain ⟨e', he', hsame, hcheck⟩ := matches_layout hfits field (List.mem_of_find?_eq_some hfield)
  have hfound := find?_of_nodup m.nodup_fields he'
  rw [hsame, hname, find?_of_nodup m.nodup_fields he] at hfound
  cases hfound
  exact hcheck

/-- The fields of a message make that message, in any order and with others among them. -/
theorem ofContent_of_perm {m : Message} {others extras : List (String × Json)}
    (horder : others.Perm (m.fields ++ extras)) (hextras : ∀ e ∈ extras, e.1 ∉ Fields.names m.fields)
    (hfits : ∀ n : Int, ∀ name, (name, Json.int n) ∈ m.fields → Fits64 n) :
    ofContent m.kind (.members others) = .ok m := by
  have hknown : (others.filter (isKnown m.kind.layout)).Perm m.fields := by
    have hfields : m.fields.filter (isKnown m.kind.layout) = m.fields :=
      List.filter_eq_self.2 fun e he => isKnown_iff.2 (List.mem_map_of_mem he)
    have hnone : extras.filter (isKnown m.kind.layout) = [] :=
      List.filter_eq_nil_iff.2 fun e he hknown => hextras e he (isKnown_iff.1 hknown)
    have hfiltered := horder.filter (isKnown m.kind.layout)
    rwa [List.filter_append, hfields, hnone, List.append_nil] at hfiltered
  have hnodup : (Fields.names (others.filter (isKnown m.kind.layout))).Nodup :=
    (hknown.map _).nodup_iff.2 m.nodup_fields
  have hcheck : ∀ e ∈ others, ∀ field, m.kind.layout.find? (·.1 == e.1) = some field → field.2.check e.2 = .ok () := by
    intro e he field hfield
    have hmem : e ∈ others.filter (isKnown m.kind.layout) := List.mem_filter.2 ⟨he, by simp [isKnown, hfield]⟩
    exact check_fields hfits (hknown.mem_iff.1 hmem) hfield
  have hcollect : collect m.kind.layout [] others = .ok ([] ++ others.filter (isKnown m.kind.layout)) :=
    collect_eq hcheck hnodup
  have hvalues := inOrder_eq m.layout_kind fun e he => find?_of_nodup hnodup (hknown.mem_iff.2 he)
  rw [List.nil_append] at hcollect
  simp [ofContent, hcollect, hvalues, ofValues?_fields, bind, Except.bind, pure, Except.pure]

/-- The fields of a message are those that its kind asks for. -/
theorem ofContent_fields {m : Message} (plain : ∀ e ∈ m.fields, e.2.isPlain = true) :
    ofContent m.kind (.members m.fields) = .ok m := by
  have horder : m.fields.Perm (m.fields ++ []) := .of_eq (List.append_nil _).symm
  refine ofContent_of_perm horder nofun fun n name hmem => ?_
  simpa [isPlain] using plain _ hmem

/-- Decoding undoes encoding. A message without doubles, whose whole numbers have 64 bits and which nests no
more arrays and objects than a text may, comes back as it was, with its names in the same order. -/
theorem decode_encode (m : Message) (plain : m.toJson.isPlain = true)
    (depth : m.toJson.depth ≤ Json.maxDepth) : decode m.encode = .ok m := by
  have hplain : ∀ e ∈ m.fields, e.2.isPlain = true := by
    obtain ⟨-, hall⟩ := isPlain_obj.1 plain
    exact (List.forall_mem_cons.1 hall).2
  have hdepth : ∀ e ∈ m.fields, e.2.depth ≤ maxDepth - 1 :=
    (List.forall_mem_cons.1 (depth_obj_le.1 depth)).2
  have hopen : (Input.start m.encode).rest =
      '\x7b' :: (parts true (m.members.map memberText) ++ ['\x7d']) := by
    rw [Input.start, encode, toJson, render]
    simp [toList_renderMembers, members]
  have hbehind : ((Input.start m.encode).advance 1).rest =
      parts true (m.members.map memberText) ++ '\x7d' :: [] := by
    rw [Input.rest_advance, hopen]
    rfl
  have henough : m.fields.length < (parts true (m.members.map memberText) ++ ['\x7d']).length := by
    have hparts := length_le_parts (fun e (_ : e ∈ m.members) => memberText_ne_nil e) true
    rw [members, List.length_cons] at hparts
    rw [List.length_append, members]
    omega
  obtain ⟨next, hread, hnext⟩ := readMembers_members hplain hdepth henough hbehind
  have hcontent : readContent (.start m.encode) = .ok ((m.kind, .members m.fields), next) := by
    simp only [readContent, skipSpace_of_cons hopen rfl, hopen, hread, bind, Except.bind]
    rfl
  simp only [decode, hcontent, bind, Except.bind, ofContent_fields hplain, endText_of_nil hnext]
  rfl

/-- The greatest number of a component, the least whole number, an escape, and names out of order. -/
theorem decode_encode_ordered :
    let m : Message := .change 0xffffffffffffffff
      [("z", .arr [.int (-0x8000000000000000), .null, .str "\"\n"]), ("a", .obj [("comp_id", .int 7)])]
    m.toJson.isPlain = true ∧ m.toJson.depth = 3 ∧ decode m.encode = .ok m := by
  intro m
  have hplain : m.toJson.isPlain = true := by decide
  have hdepth : m.toJson.depth = 3 := by decide
  exact ⟨hplain, hdepth, decode_encode m hplain (by rw [hdepth]; decide)⟩

end ViewSync.Message
