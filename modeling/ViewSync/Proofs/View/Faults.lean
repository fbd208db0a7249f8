import ViewSync.Proofs.Parser.Halting
import ViewSync.Proofs.Parser.OneLine
import ViewSync.View.Compile

/-!
# ViewSync.Proofs.View.Faults

What a collection of diagnostics stores and counts depends on the sequence of all diagnostics that went into it,
directly or with other collections, and not on how it was put together (`gather`). So the faults of a source are those
of its tokens and, behind them, those of its grammar, whatever had been left out before the two were put together.

* `push_gather`, `extend_gather` — a step appends to the sequence;
* `History.collection_eq` — hence every collection that has been put together is that of its sequence;
* `fault_of_no_module` — there is no tree only where there is a fault;
* `merged_eq_pushed` — collections hold their sequences, and the faults of a source are reported in order.
-/

namespace ViewSync

namespace Diagnostics

/-- The collection of some diagnostics in their order: the first ones are stored and all are counted. -/
def gather (ds : List Diagnostic) : Diagnostics :=
  ⟨ds.take maxDiagnostics, ds.length⟩

theorem push_gather (ds : List Diagnostic) (d : Diagnostic) : (gather ds).push d = gather (ds ++ [d]) := by
  by_cases hroom : ds.length < maxDiagnostics
  · have hall : ds.take maxDiagnostics = ds := List.take_of_length_le (Nat.le_of_lt hroom)
    have hmore : (ds ++ [d]).take maxDiagnostics = ds ++ [d] := List.take_of_length_le (by simpa using hroom)
    simp [push, gather, hall, hmore, hroom]
  · have hfull : maxDiagnostics ≤ ds.length := Nat.le_of_not_lt hroom
    have hmore : (ds ++ [d]).take maxDiagnostics = ds.take maxDiagnostics := List.take_append_of_le_length hfull
    simp [push, gather, hmore, Nat.min_eq_left hfull]

theorem foldl_push_gather (ds es : List Diagnostic) : es.foldl push (gather ds) = gather (ds ++ es) := by
  induction es generalizing ds with
  | nil => rw [List.foldl_nil, List.append_nil]
  | cons e es ih => rw [List.foldl_cons, push_gather, ih, List.append_assoc, List.singleton_append]

/-- What a collection did not store would not be stored behind others either, and it is counted. -/
theorem extend_gather (ds es : List Diagnostic) : (gather ds).extend (gather es) = gather (ds ++ es) := by
  have hstored : (ds ++ es.take maxDiagnostics).take maxDiagnostics = (ds ++ es).take maxDiagnostics := by
    rw [List.take_append, List.take_append, List.take_take, Nat.min_eq_left (Nat.sub_le _ _)]
  have htotal : (ds ++ es.take maxDiagnostics).length + (es.length - (es.take maxDiagnostics).length) =
      (ds ++ es).length := by
    have hle : (es.take maxDiagnostics).length ≤ es.length := List.length_take_le' _ _
    rw [List.length_append, List.length_append]
    omega
  have hmerged : (gather es).stored.foldl push (gather ds) = gather (ds ++ es.take maxDiagnostics) :=
    foldl_push_gather ds (es.take maxDiagnostics)
  rw [extend, hmerged]
  exact congrArg₂ Diagnostics.mk hstored htotal

/-- The faults of a stage are collected in their order. -/
theorem ofFaults_eq {Cause : Type} [Reportable Cause] (file : SourceFile) (faults : List (Fault Cause)) :
    ofFaults file faults = gather (faults.map (·.diagnose file)) := by
  rw [ofFaults, gather, List.map_take, List.length_map]

/-- How a collection is put together. -/
inductive History where
  | empty
  | push (h : History) (d : Diagnostic)
  | extend (h other : History)

/-- The collection that is put together. -/
def History.collection : History → Diagnostics
  | .empty => Diagnostics.empty
  | .push h d => h.collection.push d
  | .extend h other => h.collection.extend other.collection

/-- All diagnostics that go into a collection, in their order. -/
def History.pushed : History → List Diagnostic
  | .empty => []
  | .push h d => h.pushed ++ [d]
  | .extend h other => h.pushed ++ other.pushed

/-- A collection holds its sequence, however it is put together. -/
theorem History.collection_eq (h : History) : h.collection = gather h.pushed := by
  induction h with
  | empty => rfl
  | push h d ih => rw [collection, pushed, ih, push_gather]
  | extend h other ih ihother => rw [collection, pushed, ih, ihother, extend_gather]

theorem History.extend_assoc (a b c : History) : (a.collection.extend b.collection).extend c.collection =
    a.collection.extend (b.collection.extend c.collection) := by
  simp only [collection_eq, extend_gather, List.append_assoc]

end Diagnostics

/-! ## the faults of a source -/

namespace Parser

open ParseState

theorem onwards_recovered {p : Parser Stmt} (h : Onwards p) : Onwards (recovered p) := by
  unfold recovered
  refine h.attempt.bind fun found => ?_
  cases found with
  | some stmt => exact onwards_pure _
  | none => exact onwards_synchronize.bind fun _ => onwards_pure _

theorem onwards_module : Onwards module_ := by
  have hstatement : Onwards statement := fun s => onwards_statementUpTo (s.rest.length + 1) s
  have hreport : Onwards (report .unexpectedIndent) := fun s => s.onward_note _ _
  have hfew : Onwards Parser.tooManyFaults := fun s => .refl s
  unfold module_
  refine onwards_peek.2.2.1.bind fun start => Onwards.bind (fun s => Onwards.loopUpTo (fun acc => ?_) _ [] s) fun _ =>
    onwards_peek.2.2.2.bind fun _ => onwards_pure _
  refine (onwards_check _).bind fun _ => hfew.bind fun _ => ?_
  split
  · exact onwards_pure _
  · refine onwards_peek.1.bind fun _ => ?_
    split
    · exact onwards_advance.bind fun _ => onwards_pure _
    · exact hreport.bind fun _ => onwards_skipIndented.bind fun _ => onwards_pure _
    · exact onwards_advance.bind fun _ => onwards_pure _
    · refine (onwards_recovered hstatement).bind fun found => ?_
      cases found <;> exact onwards_pure _

end Parser

/-- There is no tree only where there is a fault. -/
theorem fault_of_no_module {tokens : List Token} (h : (parse tokens).module? = none) : (parse tokens).faults ≠ [] := by
  have hends := Parser.onwards_module (.start tokens)
  rw [parse] at h ⊢
  cases hmodule : Parser.module_ (.start tokens) with
  | done m s =>
      rw [hmodule] at h
      by_cases hfaults : s.faults = []
      · simp [hfaults] at h
      · simpa using hfaults
  | failed s =>
      rw [hmodule] at hends
      simpa using hends.2
  | exhausted => exact absurd hmodule (Parser.module_ne_exhausted tokens)

/-- The diagnostics of a source that is malformed: those of its tokens, and behind them those of its grammar. -/
def SourceFile.found (file : SourceFile) : List Diagnostic :=
  (lex file.text).faults.map (·.diagnose file) ++ (parse (lex file.text).tokens).faults.map (·.diagnose file)

theorem readModule_faults (file : SourceFile) : (readModule file).2 = .gather file.found := by
  simp only [readModule, Diagnostics.ofFaults_eq, Diagnostics.extend_gather, SourceFile.found]

theorem hasErrors_gather (ds : List Diagnostic) : (Diagnostics.gather ds).hasErrors = true ↔ ds ≠ [] := by
  simp [Diagnostics.hasErrors, Diagnostics.gather, List.length_pos_iff]

/-- A source is malformed where a fault is found in it, and all of them are reported. -/
theorem malformed_iff (name source : String) (table : Replacements) (ds : Diagnostics) :
    compileSource name source table = .error (.malformed ds) ↔
      SourceFile.found ⟨name, dedent source⟩ ≠ [] ∧ ds = .gather (SourceFile.found ⟨name, dedent source⟩) := by
  have hfaults := readModule_faults ⟨name, dedent source⟩
  have hnone : (readModule ⟨name, dedent source⟩).1 = none → SourceFile.found ⟨name, dedent source⟩ ≠ [] := by
    intro h hfound
    have hparsed : (parse (lex (dedent source)).tokens).faults = [] := by
      simpa using (List.append_eq_nil_iff.1 hfound).2
    exact fault_of_no_module h hparsed
  rw [compileSource]
  cases hread : readModule ⟨name, dedent source⟩ with
  | mk module? faults =>
      rw [hread] at hfaults hnone
      obtain rfl : faults = .gather (SourceFile.found ⟨name, dedent source⟩) := hfaults
      cases module? with
      | none => simp [hnone, eq_comm]
      | some m =>
          by_cases hempty : SourceFile.found ⟨name, dedent source⟩ = []
          · have hclean : (Diagnostics.gather []).hasErrors = false := rfl
            simp only [hempty, hclean]
            cases translate m table <;> simp
          · simp [(hasErrors_gather _).2 hempty, hempty, eq_comm]

/-- However a collection is put together, it counts all diagnostics that went into it and stores the first twenty of
them, so it does not matter how collections are grouped. A source with faults is refused with those of its tokens and
those of its grammar, in this order. -/
theorem merged_eq_pushed :
    (∀ h : Diagnostics.History,
      h.collection.total = h.pushed.length ∧ h.collection.stored = h.pushed.take 20) ∧
    (∀ a b c : Diagnostics.History, (a.collection.extend b.collection).extend c.collection =
      a.collection.extend (b.collection.extend c.collection)) ∧
    ∀ (name source : String) (table : Replacements) (ds : Diagnostics),
      let file : SourceFile := ⟨name, dedent source⟩
      let lexed := lex file.text
      let found := lexed.faults.map (·.diagnose file) ++ (parse lexed.tokens).faults.map (·.diagnose file)
      compileSource name source table = .error (.malformed ds) ↔
        found ≠ [] ∧ ds.stored = found.take 20 ∧ ds.total = found.length := by
  refine ⟨fun h => ?_, Diagnostics.History.extend_assoc, fun name source table ds => ?_⟩
  · rw [h.collection_eq]
    exact ⟨rfl, rfl⟩
  · rw [malformed_iff]
    refine and_congr_right fun _ => ⟨fun h => h ▸ ⟨rfl, rfl⟩, fun ⟨hstored, htotal⟩ => ?_⟩
    exact congrArg₂ Diagnostics.mk hstored htotal

end ViewSync
