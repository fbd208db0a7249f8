import ViewSync.Proofs.Wire.Message

/-!
# ViewSync.Proofs.Wire.KeyOrder

A frame is read by the names of its members. They may stand in any order, with others among them, and the kind may stand
in front of the fields, between them or behind them: the fields are kept as they are until the kind is known. The text
may be any that spells these members, with white space and escapes; what is inside of a field keeps its order.

* `readContent_spells` — the kind is found wherever it stands, and the other members keep their order;
* `decode_reordered` — the members of a message are read as that message in any order, with others among them.
-/

namespace ViewSync.Message

open Json

/-- The kind of a frame is found wherever it stands, and the other members are kept in their order. -/
theorem readContent_spells {kind : Kind} {entries : List (String × Json)}
    (hkind : ∀ e ∈ entries, e.1 = "type" → e.2 = .str kind.word) (honce : (entries.map (·.1)).count "type" = 1)
    {text : String} (htext : SpellsEntries (maxDepth - 1) entries text) : ∃ next,
    readContent (.start text) = .ok ((kind, .members (entries.filter (·.1 != "type"))), next) ∧ Blank next.rest := by
  obtain ⟨space, object, space', hspace, hobject, hspace', htext⟩ := htext
  have hbehind : (Input.start text).skipSpace.rest = object ++ space' := hobject.rest_skipSpace hspace htext
  obtain ⟨cs, hopen, next, hread, hnext⟩ :=
    hobject.readMembers (gathered kind) (takes_member hkind honce) hbehind
  have hstart : gathered kind [] = (none, []) := rfl
  have hall : gathered kind entries = (some kind, entries.filter (·.1 != "type")) := by
    have hmem : "type" ∈ entries.map (·.1) := List.count_pos_iff.1 (honce ▸ Nat.one_pos)
    have hany : entries.any (·.1 == "type") = true := by simpa using hmem
    rw [gathered, hany, if_pos rfl]
  rw [hstart, hall] at hread
  refine ⟨next, ?_, hnext ▸ hspace'⟩
  simp only [readContent, hopen, hread, bind, Except.bind]
  rfl

/-- The numbers of a message that has a text are of 64 bits. -/
theorem fits_of_spells {m : Message} {entries extras : List (String × Json)} {d : Nat} {object : List Char}
    (h : SpellsObject (Json.Spells d) entries object) (horder : entries.Perm (m.members ++ extras)) (n : Int)
    (name : String) (hmem : (name, Json.int n) ∈ m.fields) : Fits64 n := by
  have hentry : (name, Json.int n) ∈ entries :=
    horder.mem_iff.2 (List.mem_append_left _ (List.mem_cons_of_mem _ hmem))
  obtain ⟨text, htext⟩ := h.exists_of_mem hentry
  exact htext.fits

/-- The members of a message are read as that message, in any order and with any others among them that have other
names. Change sets and payloads are kept as they are, with the order of their members. -/
theorem decode_reordered {m : Message} {entries extras : List (String × Json)} {text : String}
    (htext : SpellsEntries (maxDepth - 1) entries text) (horder : entries.Perm (m.members ++ extras))
    (hextras : ∀ e ∈ extras, e.1 ∉ Fields.names m.members) : decode text = .ok m := by
  have hsplit : ∀ e ∈ entries, e ∈ m.members ∨ e ∈ extras := fun e he => List.mem_append.1 (horder.mem_iff.1 he)
  have htype : ∀ e ∈ extras, e.1 ≠ "type" := fun e he heq => hextras e he (heq ▸ List.mem_cons_self)
  have hkind : ∀ e ∈ entries, e.1 = "type" → e.2 = .str m.kind.word := fun e he heq =>
    (hsplit e he).elim (fun he => m.kind_of_mem_members e he heq) fun he => absurd heq (htype e he)
  have honce : (entries.map (·.1)).count "type" = 1 := by
    have hnone : (extras.map (·.1)).count "type" = 0 :=
      List.count_eq_zero.2 fun hmem => by
        obtain ⟨e, he, heq⟩ := List.mem_map.1 hmem
        exact htype e he heq
    rw [(horder.map _).count_eq, List.map_append, List.count_append, count_type_members, hnone]
  obtain ⟨next, hread, hnext⟩ := readContent_spells hkind honce htext
  -- without the kind, the fields of the message and the others are left
  have hothers : (entries.filter (·.1 != "type")).Perm (m.fields ++ extras) := by
    have hmembers : m.members.filter (·.1 != "type") = m.fields := congrArg Prod.snd m.gathered_members
    have hrest : extras.filter (·.1 != "type") = extras := List.filter_eq_self.2 fun e he => by simpa using htype e he
    have hfiltered := horder.filter (·.1 != "type")
    rwa [List.filter_append, hmembers, hrest] at hfiltered
  have hfields : ∀ e ∈ extras, e.1 ∉ Fields.names m.fields := fun e he hmem =>
    hextras e he (List.mem_cons_of_mem _ hmem)
  obtain ⟨-, object, -, -, hobject, -⟩ := htext
  have hmessage := ofContent_of_perm hothers hfields (fits_of_spells hobject horder)
  simp only [decode, hread, hmessage, bind, Except.bind, endText_of_blank hnext]
  rfl

/-- The kind stands behind the fields with an escape in its name, and a member of another name in front of them. -/
theorem decode_reordered_change :
    let m : Message := .change 7 [("b", .int 1), ("a", .null)]
    let extras : List (String × Json) := [("note", .arr [.null])]
    let entries : List (String × Json) :=
      [("note", .arr [.null]), ("state_change", .obj [("b", .int 1), ("a", .null)]), ("comp_id", .int 7),
        ("type", .str "state_change")]
    let text := "\n\x7b\"note\":[null] ,\"state_change\":\x7b\"b\":1,\"a\":null\x7d, \"comp_id\" : 7," ++
      "\"t\\u0079pe\":\"state_change\"\x7d"
    SpellsEntries (maxDepth - 1) entries text ∧ entries.Perm (m.members ++ extras) ∧
      (∀ e ∈ extras, e.1 ∉ Fields.names m.members) ∧ decode text = .ok m := by
  intro m extras entries text
  have hspace : Blank [' '] := by decide
  have hnote : SpellsMember (Json.Spells (maxDepth - 1)) ("note", .arr [.null]) "\"note\":[null]".toList :=
    spellsMember_memberText (spells_render rfl (by decide))
  have hchanges : SpellsMember (Json.Spells (maxDepth - 1)) ("state_change", .obj [("b", .int 1), ("a", .null)])
      "\"state_change\":\x7b\"b\":1,\"a\":null\x7d".toList :=
    spellsMember_memberText (spells_render (by decide) (by decide))
  have hid : SpellsMember (Json.Spells (maxDepth - 1)) ("comp_id", .int 7) "\"comp_id\" : 7".toList :=
    ⟨_, _, spellsText_quote "comp_id",
      ⟨[' '], [' '], _, hspace, hspace, spells_render (by decide) (by decide), rfl⟩, rfl⟩
  have htype : SpellsMember (Json.Spells (maxDepth - 1)) ("type", .str "state_change")
      "\"t\\u0079pe\":\"state_change\"".toList := by
    have plain {c : Char} (h : c ≠ '"' ∧ c ≠ '\\' ∧ ¬ c.toNat < 0x20) : SpellsChar c [c] := .plain h.1 h.2.1 h.2.2
    have hunit : HexUnit "0079".toList 'y'.toNat := ⟨rfl, rfl, rfl⟩
    have hname : SpellsText "type" "\"t\\u0079pe\"".toList :=
      ⟨_, .cons (plain (by decide)) (.cons (.unit hunit) (.cons (plain (by decide)) (.cons (plain (by decide)) .nil))),
        rfl⟩
    exact ⟨_, _, hname, ⟨[], [], _, blank_nil, blank_nil, spells_render rfl (by decide), rfl⟩, rfl⟩
  have hentries : SpellsEntries (maxDepth - 1) entries text := by
    have hrow := Listed.first blank_nil hnote (.next hspace blank_nil hchanges
      (.next blank_nil hspace hid (.next blank_nil blank_nil htype (.nil blank_nil))))
    exact ⟨['\n'], _, [], by decide, ⟨_, hrow, rfl⟩, blank_nil, by decide⟩
  have horder : entries.Perm (m.members ++ extras) := List.reverse_perm (m.members ++ extras)
  have hextras : ∀ e ∈ extras, e.1 ∉ Fields.names m.members := by decide
  exact ⟨hentries, horder, hextras, decode_reordered hentries horder hextras⟩

end ViewSync.Message
