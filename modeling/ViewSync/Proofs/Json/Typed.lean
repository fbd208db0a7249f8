import ViewSync.Json.Typed
import ViewSync.Proofs.Json.RoundTrip

/-!
# ViewSync.Proofs.Json.Typed

The readers of values of one type take every text of such a value. A reader of an object takes the texts of its members
in their order, from what is known of each member (`takes_readObject`); a reader of an array takes items that are read
alike (`takes_readArray`). What has been read behind some members is said by their names (`seen`).
-/

namespace ViewSync.Json

/-! ## strings and names -/

theorem skips_readText (wanted : String) : Skips (readText wanted) := fun inp => by
  simp only [readText, Input.skipSpace_skipSpace]

theorem takes_readText (wanted : String) {s : String} {text : List Char} (h : SpellsText s text) :
    Takes (readText wanted) text s := by
  intro inp rest hinp _
  obtain ⟨cs, hquote, next, hread, hnext⟩ := readString_spells h hinp
  exact ⟨next, by simp only [readText, skipSpace_of_cons hquote rfl, hquote, hread], hnext⟩

section

variable {α : Type} {names : List (String × α)}

theorem skips_readName (names : List (String × α)) : Skips (readName names) := fun inp => by
  simp only [readName, readText, Input.skipSpace_skipSpace]

/-- A name is read as what it stands for. -/
theorem takes_readName {name : String} {a : α} (hfind : names.find? (·.1 == name) = some (name, a))
    {text : List Char} (h : SpellsText name text) : Takes (readName names) text a := by
  intro inp rest hinp ends
  obtain ⟨next, hread, hnext⟩ := takes_readText "variant identifier" h inp rest hinp ends
  exact ⟨next, by simp [readName, hread, hfind, bind, Except.bind, pure, Except.pure], hnext⟩

theorem skips_readChoice (depth : Nat) (names : List (String × α)) : Skips (readChoice depth names) := fun inp => by
  simp only [readChoice, Input.skipSpace_skipSpace]

theorem takes_readChoice (depth : Nat) {name : String} {a : α} (hfind : names.find? (·.1 == name) = some (name, a))
    {text : List Char} (h : SpellsText name text) : Takes (readChoice depth names) text a := by
  intro inp rest hinp ends
  obtain ⟨next, hread, hnext⟩ := takes_readName hfind h inp rest hinp ends
  obtain ⟨cs, hquote, -⟩ := readString_spells h hinp
  exact ⟨next, by simp [readChoice, skipSpace_of_cons hquote rfl, hquote, hread], hnext⟩

end

/-! ## numbers -/

theorem skips_readNat (max : Nat) (wanted : String) : Skips (readNat max wanted) := fun inp => by
  simp only [readNat, Input.skipSpace_skipSpace]

/-- A number up to the greatest one is read from its digits. -/
theorem takes_readNat {n max : Nat} (wanted : String) (hmax : n ≤ max) {text : List Char}
    (h : SpellsScalar (.int n) text) : Takes (readNat max wanted) text n := by
  obtain ⟨htext, hfits⟩ : text = Nat.toDigits 10 n ∧ n ≤ Decimal.maxNat64 := by
    cases h with
    | int h => exact ⟨toList_repr n, by exact_mod_cast h.2⟩
  intro inp rest hinp ends
  rw [htext] at hinp
  obtain ⟨next, hread, hnext⟩ := readNumber_toDigits hfits false inp rest hinp ends
  obtain ⟨c, cs, hcons, hdigit⟩ := (isDigits_toDigits n).exists_cons
  rw [hcons, List.cons_append] at hinp
  refine ⟨next, ?_, hnext⟩
  have hvalue : natOf? max (whole false n) = some n := by simp [whole, natOf?, hmax]
  simp [readNat, skipSpace_of_cons hinp (isSpace_of_isDigit hdigit), hinp, ne_of_isDigit hdigit (d := '-') rfl,
    hdigit, hread, hvalue, bind, Except.bind, pure, Except.pure]

/-! ## values that may be left out -/

theorem skips_readOptional {α : Type} (read : Input → Read α) : Skips (readOptional read) := fun inp => by
  rw [readOptional, readOptional, Input.skipSpace_skipSpace]

/-- A string that may be left out is not left out. -/
theorem takes_readOptional (wanted : String) {s : String} {text : List Char} (h : SpellsText s text) :
    Takes (readOptional (readText wanted)) text (some s) := by
  intro inp rest hinp ends
  obtain ⟨next, hread, hnext⟩ := takes_readText wanted h inp rest hinp ends
  obtain ⟨cs, hquote, -⟩ := readString_spells h hinp
  exact ⟨next, by simp [readOptional, skipSpace_of_cons hquote rfl, hquote, hread, Except.map], hnext⟩

/-! ## members, objects and arrays -/

section

variable {α β : Type} {spells : Json → List Char → Prop}

/-- A member that has not been read before is read behind its colon. -/
theorem once_none (name : String) (read : Input → Read α) (set : α → β) :
    once name none read set = behindColon read set := rfl

/-- An object is read member by member. -/
theorem takes_readObject {depth : Nat} (hdepth : 0 < depth) (wanted : String) {member : α → String → Input → Read α}
    {entries : List (String × Json)} {object : List Char} (h : SpellsObject spells entries object)
    (state : List (String × Json) → α)
    (each : ∀ front e back, entries = front ++ e :: back → ∀ text, SpellsBehind spells e.2 text →
      Takes (member (state front) e.1) text (state (front ++ [e]))) :
    Takes (readObject depth readString wanted member (state [])) object (state entries) := by
  intro inp rest hinp _
  obtain ⟨cs, hopen, next, hread, hnext⟩ := h.readMembers state each hinp
  refine ⟨next, ?_, hnext⟩
  simp only [readObject, skipSpace_of_cons hopen rfl, hopen, if_neg (Nat.ne_of_gt hdepth), hread]

theorem skips_readArray (depth : Nat) (item : Input → Read α) : Skips (readArray depth item) := fun inp => by
  simp only [readArray, Input.skipSpace_skipSpace]

/-- An array is read item by item. -/
theorem takes_readArray {depth : Nat} (hdepth : 0 < depth) {item : Input → Read α} {text : α → List Char} {as : List α}
    (each : ∀ a ∈ as, Takes item (text a) a ∧ Begins (text a)) :
    Takes (readArray depth item) ('[' :: (parts true (as.map text) ++ [']'])) as := by
  intro inp rest hinp _
  rw [List.cons_append, List.append_assoc, List.singleton_append] at hinp
  have hbehind : (inp.advance 1).rest = parts true (as.map text) ++ ']' :: rest := by
    rw [Input.rest_advance, hinp]
    rfl
  have hlength := length_le_parts (fun a ha => (each a ha).2.ne_nil) true
  have henough : as.length < (parts true (as.map text) ++ ']' :: rest).length + 1 := by
    rw [List.length_append]
    omega
  have hlisted : Listed (fun a cs => a ∈ as ∧ cs = text a) true as (parts true (as.map text)) :=
    listed_parts (fun a ha => ⟨ha, rfl⟩) true
  obtain ⟨next, hread, hnext⟩ := readItems_listed hlisted
    (fun a ha cs hcs => hcs.2 ▸ each a ha) henough hbehind
  refine ⟨next, ?_, hnext⟩
  simp only [readArray, skipSpace_of_cons hinp rfl, hinp, if_neg (Nat.ne_of_gt hdepth), hread]

end

/-! ## fields -/

section

variable {α : Type} {front : List (String × Json)} {e : String × Json} {name : String}

/-- A field that has been read if its name stands among some members. -/
def seen (front : List (String × Json)) (name : String) (a : α) : Option α :=
  if name ∈ Fields.names front then some a else none

@[simp] theorem seen_nil (name : String) (a : α) : seen [] name a = none := rfl

theorem seen_of_mem (h : name ∈ Fields.names front) (a : α) : seen front name a = some a :=
  if_pos h

theorem seen_of_notMem (h : name ∉ Fields.names front) (a : α) : seen front name a = none :=
  if_neg h

theorem names_append (front : List (String × Json)) (e : String × Json) :
    Fields.names (front ++ [e]) = Fields.names front ++ [e.1] := by
  simp [Fields.names]

/-- A member of that name has just been read. -/
@[simp] theorem seen_append_self (front : List (String × Json)) (name : String) (v : Json) (a : α) :
    seen (front ++ [(name, v)]) name a = some a :=
  seen_of_mem (by simp [names_append]) a

/-- A member of another name has been read. -/
theorem seen_append_of_ne (h : name ≠ e.1) (a : α) : seen (front ++ [e]) name a = seen front name a := by
  simp [seen, names_append, h]

variable {σ : Type} {state : List (String × Json) → σ} {member : String → Input → Read σ}
  {spells : Json → List Char → Prop} {read : Input → Read α} {v : Json} {text : List Char} {a : α}

/-- A member is read into its field by the reader of that field, if none of its name stands in front. -/
theorem takes_field (set : α → σ) (hmember : ∀ inp, member name inp = once name (seen front name a) read set inp)
    (hstate : state (front ++ [(name, v)]) = set a) (hnew : name ∉ Fields.names front)
    (h : SpellsBehind spells v text) (skips : Skips read) (each : ∀ text, spells v text → Takes read text a) :
    Takes (member name) text (state (front ++ [(name, v)])) := by
  rw [funext hmember, hstate, seen_of_notMem hnew, once_none]
  exact h.takes skips each set

end

/-! ## members by name -/

section

variable {known extras all : List (String × Json)}

/-- A member of a list without repeated names is the only one of its name. -/
theorem filter_name_of_nodup (hknown : (Fields.names known).Nodup) {e : String × Json} (he : e ∈ known) :
    known.filter (·.1 == e.1) = [e] := by
  obtain ⟨front, back, rfl⟩ := List.append_of_mem he
  rw [Fields.names, List.map_append, List.map_cons, List.nodup_middle, List.nodup_cons, ← List.map_append] at hknown
  have hnone : ∀ x ∈ front ++ back, ¬ (x.1 == e.1) = true := fun x hx heq =>
    hknown.1 (eq_of_beq heq ▸ List.mem_map_of_mem hx)
  have hfront : front.filter (·.1 == e.1) = [] :=
    List.filter_eq_nil_iff.2 fun x hx => hnone x (List.mem_append_left _ hx)
  have hback : back.filter (·.1 == e.1) = [] :=
    List.filter_eq_nil_iff.2 fun x hx => hnone x (List.mem_append_right _ hx)
  simp [List.filter_append, hfront, hback]

/-- In any order and with others among them that have other names, each known member is the only one of its name. -/
theorem filter_name_of_perm (horder : all.Perm (known ++ extras)) (hknown : (Fields.names known).Nodup)
    (hextras : ∀ x ∈ extras, x.1 ∉ Fields.names known) {e : String × Json} (he : e ∈ known) :
    all.filter (·.1 == e.1) = [e] := by
  have hnone : extras.filter (·.1 == e.1) = [] := List.filter_eq_nil_iff.2 fun x hx heq =>
    hextras x hx (eq_of_beq heq ▸ List.mem_map_of_mem he)
  have hfiltered := horder.filter (·.1 == e.1)
  rw [List.filter_append, filter_name_of_nodup hknown he, hnone, List.append_nil] at hfiltered
  exact List.perm_singleton.1 hfiltered

/-- In front of the only member of a name there is none of that name. -/
theorem notMem_front {front back : List (String × Json)} {e : String × Json}
    (honce : (front ++ e :: back).filter (·.1 == e.1) = [e]) : e.1 ∉ Fields.names front := by
  intro hmem
  obtain ⟨x, hx, heq⟩ := List.mem_map.1 hmem
  have hpos : 0 < (front.filter (·.1 == e.1)).length :=
    List.length_pos_of_mem (List.mem_filter.2 ⟨hx, beq_iff_eq.2 heq⟩)
  have hlength := congrArg List.length honce
  simp only [List.filter_append, List.filter_cons, beq_self_eq_true, if_true, List.length_append, List.length_cons,
    List.length_nil] at hlength
  omega

end

/-! ## whole texts -/

/-- A text with white space around what a reader takes is decoded as that. -/
theorem Takes.decode {α : Type} {read : Input → Read α} {text : List Char} {a : α} (h : Takes read text a)
    (skips : Skips read) {space space' : List Char} (hspace : Blank space) (hspace' : Blank space') {whole : String}
    (hwhole : whole.toList = space ++ (text ++ space')) : Json.decode read whole = .ok a := by
  have hends : Ends space' := by simpa using hspace'.ends ends_nil
  obtain ⟨next, hread, hnext⟩ := h.led skips hspace (.start whole) space'
    (hwhole.trans (List.append_assoc _ _ _).symm) hends
  simp only [Json.decode, hread, bind, Except.bind, endText_of_blank (hnext ▸ hspace')]
  rfl

end ViewSync.Json
