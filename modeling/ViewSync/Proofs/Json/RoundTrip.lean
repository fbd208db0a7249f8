import Mathlib.Data.List.Nodup
import ViewSync.Proofs.Json.Reading

/-!
# ViewSync.Proofs.Json.RoundTrip

The text of a value is read as that value. This holds of the values that have no doubles, whole numbers of 64
bits only and no name twice in an object (`isPlain`), as long as the reader may nest as deep as the value does
(`depth`).

* `spells_render` — what is written for a value is one of its texts;
* `takes_render` — a reader of some depth takes the text of every value that is no deeper;
* `parse_render` — the text of a value as a whole is parsed as that value.
-/

namespace ViewSync

/-! ## putting new names -/

namespace Fields

theorem put_of_not_mem {m : Fields} {n : String} (h : n ∉ m.names) (v : Json) :
    m.put n v = m ++ [(n, v)] := by
  induction m with
  | nil => rfl
  | cons e m ih =>
      obtain ⟨hne, hm⟩ : n ≠ e.1 ∧ n ∉ names m := by simpa [names] using h
      simp [put, Ne.symm hne, ih hm]

/-- Fields with new names go to the end, in their order. -/
theorem putAll_of_nodup {m new : Fields} (h : names (m ++ new) |>.Nodup) : m.putAll new = m ++ new := by
  induction new generalizing m with
  | nil => exact (List.append_nil m).symm
  | cons e new ih =>
      have hnew : e.1 ∉ m.names := by
        rw [names, List.map_append, List.map_cons, List.nodup_middle, List.nodup_cons] at h
        exact fun hmem => h.1 (List.mem_append_left _ hmem)
      have hstep : putAll m (e :: new) = putAll (m.put e.1 e.2) new := rfl
      rw [hstep, put_of_not_mem hnew, ih (by simpa using h)]
      simp

end Fields

namespace Json

/-! ## depth -/

mutual

/-- How many arrays and objects are nested in a value. -/
def depth : Json → Nat
  | .arr items => depthItems items + 1
  | .obj members => depthMembers members + 1
  | _ => 0

/-- The depth of the deepest item. -/
def depthItems : List Json → Nat
  | [] => 0
  | v :: rest => max (depth v) (depthItems rest)

/-- The depth of the deepest member. -/
def depthMembers : List (String × Json) → Nat
  | [] => 0
  | (_, v) :: rest => max (depth v) (depthMembers rest)

end

theorem depth_arr_le {items : List Json} {d : Nat} :
    (arr items).depth ≤ d + 1 ↔ ∀ v ∈ items, v.depth ≤ d := by
  rw [depth, Nat.add_le_add_iff_right]
  induction items with
  | nil => simp [depthItems]
  | cons v rest ih => rw [depthItems, Nat.max_le, ih, List.forall_mem_cons]

theorem depth_obj_le {members : List (String × Json)} {d : Nat} :
    (obj members).depth ≤ d + 1 ↔ ∀ e ∈ members, e.2.depth ≤ d := by
  rw [depth, Nat.add_le_add_iff_right]
  induction members with
  | nil => simp [depthMembers]
  | cons e rest ih => rw [depthMembers, Nat.max_le, ih, List.forall_mem_cons]

/-! ## plain values -/

mutual

/-- A value without doubles, whose whole numbers have 64 bits and whose objects have no name twice. -/
def isPlain : Json → Bool
  | .int n => Fits64 n
  | .float _ => false
  | .arr items => arePlain items
  | .obj members => (Fields.names members).Nodup && haveOnlyPlain members
  | _ => true

/-- Whether all items are plain. -/
def arePlain : List Json → Bool
  | [] => true
  | v :: rest => isPlain v && arePlain rest

/-- Whether the values of all members are plain. -/
def haveOnlyPlain : List (String × Json) → Bool
  | [] => true
  | (_, v) :: rest => isPlain v && haveOnlyPlain rest

end

theorem isPlain_arr {items : List Json} :
    (arr items).isPlain = true ↔ ∀ v ∈ items, v.isPlain = true := by
  rw [isPlain]
  induction items with
  | nil => simp [arePlain]
  | cons v rest ih => simp [arePlain, ih]

theorem isPlain_obj {members : List (String × Json)} : (obj members).isPlain = true ↔
    (Fields.names members).Nodup ∧ ∀ e ∈ members, e.2.isPlain = true := by
  have hall : haveOnlyPlain members = true ↔ ∀ e ∈ members, e.2.isPlain = true := by
    induction members with
    | nil => simp [haveOnlyPlain]
    | cons e rest ih => simp [haveOnlyPlain, ih]
  rw [isPlain, Bool.and_eq_true, decide_eq_true_eq, hall]

/-! ## texts with commas between them -/

/-- Texts one after another, with a comma in front of each but the very first. -/
def parts : Bool → List (List Char) → List Char
  | _, [] => []
  | first, text :: rest => (if first then [] else [',']) ++ text ++ parts false rest

/-- The text of a member. -/
def memberText (e : String × Json) : List Char :=
  (quote e.1).toList ++ ':' :: e.2.render.toList

theorem memberText_ne_nil (e : String × Json) : memberText e ≠ [] := by
  simp [memberText]

theorem toList_renderItems (items : List Json) :
    (renderItems items).toList = parts true (items.map fun v => v.render.toList) := by
  induction items with
  | nil => rw [renderItems]; rfl
  | cons v rest ih =>
      cases rest with
      | nil => simp [renderItems, parts]
      | cons w rest =>
          rw [renderItems, String.toList_append, ih]
          simp [parts]

theorem toList_renderMembers (members : List (String × Json)) :
    (renderMembers members).toList = parts true (members.map memberText) := by
  induction members with
  | nil => rw [renderMembers]; rfl
  | cons e rest ih =>
      cases rest with
      | nil => simp [renderMembers, parts, memberText]
      | cons e' rest =>
          rw [renderMembers, String.toList_append, ih]
          simp [parts, memberText]

/-- As many texts as there are, so many characters there are at least. -/
theorem length_le_parts {α : Type} {text : α → List Char} {as : List α} (h : ∀ a ∈ as, text a ≠ [])
    (first : Bool) : as.length ≤ (parts first (as.map text)).length := by
  induction as generalizing first with
  | nil => exact Nat.zero_le _
  | cons a as ih =>
      obtain ⟨htext, hrest⟩ := List.forall_mem_cons.1 h
      have hlength := List.length_pos_iff.2 htext
      have hbehind := ih hrest false
      simp only [List.map_cons, parts, List.length_append, List.length_cons]
      omega

/-! ## what is written -/

theorem listed_parts {α : Type} {spells : α → List Char → Prop} {text : α → List Char} {as : List α}
    (each : ∀ a ∈ as, spells a (text a)) (first : Bool) : Listed spells first as (parts first (as.map text)) := by
  induction as generalizing first with
  | nil => exact .nil blank_nil
  | cons a as ih =>
      obtain ⟨ha, has⟩ := List.forall_mem_cons.1 each
      have hmore := ih has false
      cases first with
      | true => simpa [parts] using Listed.first blank_nil ha hmore
      | false => simpa [parts] using Listed.next blank_nil blank_nil ha hmore

theorem spellsMember_memberText {spells : Json → List Char → Prop} {e : String × Json}
    (h : spells e.2 e.2.render.toList) : SpellsMember spells e (memberText e) :=
  ⟨_, _, spellsText_quote e.1, ⟨[], [], _, blank_nil, blank_nil, h, rfl⟩, rfl⟩

/-- The members of an object, as they are written. -/
theorem spellsObject_render {spells : Json → List Char → Prop} {members : List (String × Json)}
    (each : ∀ e ∈ members, spells e.2 e.2.render.toList) :
    SpellsObject spells members (render (.obj members)).toList := by
  refine ⟨_, listed_parts (fun e he => spellsMember_memberText (each e he)) true, ?_⟩
  rw [render]
  simp [toList_renderMembers]

theorem spellsArray_render {spells : Json → List Char → Prop} {items : List Json}
    (each : ∀ v ∈ items, spells v v.render.toList) : SpellsArray spells items (render (.arr items)).toList := by
  refine ⟨_, listed_parts each true, ?_⟩
  rw [render]
  simp [toList_renderItems]

theorem spellsScalar_render {v : Json} (plain : v.isPlain = true) (flat : v.depth = 0) :
    SpellsScalar v v.render.toList := by
  cases v with
  | null => exact .null
  | bool value => cases value <;> exact .bool _
  | int n =>
      have hn : Fits64 n := by simpa [isPlain] using plain
      simpa [render] using SpellsScalar.int hn
  | float x => cases plain
  | str s => simpa [render] using SpellsScalar.str (spellsText_quote s)
  | arr items => rw [depth] at flat; cases flat
  | obj members => rw [depth] at flat; cases flat

/-- What is written for a plain value is one of its texts. -/
theorem spells_render {v : Json} (plain : v.isPlain = true) {d : Nat} (depth : v.depth ≤ d) :
    Spells d v v.render.toList := by
  induction d generalizing v with
  | zero => exact spellsScalar_render plain (Nat.le_zero.1 depth)
  | succ d ih =>
      cases v with
      | arr items =>
          have hdepth := depth_arr_le.1 depth
          have hplain := isPlain_arr.1 plain
          exact .inr (.inl ⟨items, spellsArray_render fun v hv => ih (hplain v hv) (hdepth v hv), rfl⟩)
      | obj members =>
          have hdepth := depth_obj_le.1 depth
          obtain ⟨hnodup, hplain⟩ := isPlain_obj.1 plain
          have hmembers : Fields.ofPairs members = members := Fields.putAll_of_nodup hnodup
          refine .inr (.inr ⟨members, spellsObject_render fun e he => ih (hplain e he) (hdepth e he), ?_⟩)
          rw [hmembers]
      | _ => exact .inl (spellsScalar_render plain rfl)

/-- A reader takes the text of every plain value that is no deeper than it may go. -/
theorem takes_render {v : Json} (plain : v.isPlain = true) {d : Nat} (depth : v.depth ≤ d) :
    Takes (readNested .exact d) v.render.toList v :=
  takes_spells (spells_render plain depth)

/-- The text of a plain value is parsed as that value. -/
theorem parse_render {v : Json} (plain : v.isPlain = true) {d : Nat} (depth : v.depth ≤ d) :
    parse d v.render = .ok v := by
  obtain ⟨next, hread, hnext⟩ :=
    takes_render plain depth (.start v.render) [] (by simp [Input.start]) ends_nil
  simp [parse, readValue, hread, endText_of_nil hnext, bind, Except.bind, pure, Except.pure]

end Json

end ViewSync
