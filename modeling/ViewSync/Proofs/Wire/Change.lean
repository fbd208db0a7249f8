import Mathlib.Data.List.Induction
import ViewSync.Wire.Change

/-!
# ViewSync.Proofs.Wire.Change

Change sets applied one after another. A change set that was put together from two has the effect of both,
in their order (`applyChanges_putAll`); this is why a batch may be told as one change. In what is put
together from many, each name stands where it was set first (`names_ofPairs`), with the value that it was
given last (`get?_ofPairs`).
-/

namespace ViewSync

namespace Fields

/-! ## setting values -/

theorem put_cons (k : String) (w : Json) (m : Fields) (n : String) (v : Json) :
    put ((k, w) :: m) n v = if k = n then (k, v) :: m else (k, w) :: put m n v := rfl

theorem mem_names_put {m : Fields} {n n' : String} {v : Json} :
    n' ∈ (m.put n v).names ↔ n' = n ∨ n' ∈ m.names := by
  induction m with
  | nil => simp [put, names]
  | cons e m ih =>
      obtain ⟨k, w⟩ := e
      rw [put_cons]
      by_cases hk : k = n
      · subst hk
        simp [names]
      · simp only [names] at ih
        simp only [hk, if_false, names, List.map_cons, List.mem_cons, ih]
        constructor
        · intro hmem
          obtain h | h | h := hmem
          · exact .inr (.inl h)
          · exact .inl h
          · exact .inr (.inr h)
        · intro hmem
          obtain h | h | h := hmem
          · exact .inr (.inl h)
          · exact .inl h
          · exact .inr (.inr h)

theorem nodup_put {m : Fields} (h : m.names.Nodup) (n : String) (v : Json) :
    (m.put n v).names.Nodup := by
  induction m with
  | nil => simp [put, names]
  | cons e m ih =>
      obtain ⟨k, w⟩ := e
      obtain ⟨hnew, hrest⟩ := List.nodup_cons.1 h
      rw [put_cons]
      by_cases hk : k = n
      · subst hk
        rw [if_pos rfl]
        exact h
      · rw [if_neg hk]
        refine List.nodup_cons.2 ⟨?_, ih hrest⟩
        intro hmem
        obtain rfl | hmem := mem_names_put.1 hmem
        · exact hk rfl
        · exact hnew hmem

theorem nodup_names_nil : (names []).Nodup := List.nodup_nil

theorem nodup_putAll {m : Fields} (h : m.names.Nodup) (new : Fields) : (m.putAll new).names.Nodup := by
  induction new generalizing m with
  | nil => exact h
  | cons e new ih => exact ih (nodup_put h e.1 e.2)

/-- Of two values under one name the last one stays. -/
theorem put_put_self (m : Fields) (n : String) (v w : Json) : (m.put n v).put n w = m.put n w := by
  induction m with
  | nil => simp [put]
  | cons e m ih =>
      obtain ⟨k, u⟩ := e
      by_cases hk : k = n
      · simp [put, hk]
      · simp [put, hk, ih]

/-- A value under a name that is there can be set before or after one under another name. -/
theorem put_comm {m : Fields} {n n' : String} (h : n ∈ m.names) (hne : n' ≠ n) (v v' : Json) :
    (m.put n v).put n' v' = (m.put n' v').put n v := by
  induction m with
  | nil => cases h
  | cons e m ih =>
      obtain ⟨k, u⟩ := e
      by_cases hk : k = n
      · subst hk
        simp [put, Ne.symm hne]
      · have hmem : n ∈ names m := by
          simpa [names, Ne.symm hk] using h
        by_cases hk' : k = n'
        · subst hk'
          simp [put, hne]
        · simp [put, hk, hk', ih hmem]

theorem put_putAll_comm {m new : Fields} {n : String} (h : n ∈ m.names) (hnew : n ∉ new.names)
    (v : Json) : (m.put n v).putAll new = (m.putAll new).put n v := by
  induction new generalizing m with
  | nil => rfl
  | cons e new ih =>
      obtain ⟨k, w⟩ := e
      have hk : k ≠ n ∧ n ∉ names new := by
        simpa [names, eq_comm] using hnew
      have hcomm := put_comm h hk.1 v w
      have hrest := ih (m := m.put k w) (mem_names_put.2 (.inr h)) hk.2
      simp only [putAll, List.foldl_cons] at hrest ⊢
      rw [hcomm, hrest]

/-! ## change sets put together -/

theorem putAll_put {a : Fields} (h : a.names.Nodup) (m : Fields) (n : String) (v : Json) :
    m.putAll (a.put n v) = (m.putAll a).put n v := by
  induction a generalizing m with
  | nil => rfl
  | cons e a ih =>
      obtain ⟨k, w⟩ := e
      obtain ⟨hnew, hrest⟩ := List.nodup_cons.1 h
      rw [put_cons]
      by_cases hk : k = n
      · -- the name is set first and not again, so its value may as well be set last
        subst hk
        rw [if_pos rfl]
        have hmem : k ∈ (m.put k w).names := mem_names_put.2 (.inl rfl)
        have hcomm := put_putAll_comm hmem hnew v
        rw [put_put_self] at hcomm
        exact hcomm
      · rw [if_neg hk]
        exact ih hrest (m.put k w)

/-- Setting what two lists set together is setting the first and then the second. -/
theorem putAll_putAll {a : Fields} (h : a.names.Nodup) (m new : Fields) :
    m.putAll (a.putAll new) = (m.putAll a).putAll new := by
  induction new generalizing a with
  | nil => rfl
  | cons e new ih =>
      have hstep := ih (nodup_put h e.1 e.2)
      rw [putAll_put h] at hstep
      exact hstep

/-- What is put together from a list with names that occur twice has the effect of the list. -/
theorem putAll_ofPairs (m new : Fields) : m.putAll (ofPairs new) = m.putAll new :=
  putAll_putAll nodup_names_nil m new

theorem ofPairs_flatten (news : List Fields) :
    ofPairs news.flatten = news.foldl putAll [] :=
  List.foldl_flatten

theorem ofPairs_flatten_map (news : List Fields) :
    ofPairs (news.map ofPairs).flatten = ofPairs news.flatten := by
  rw [ofPairs_flatten, ofPairs_flatten, List.foldl_map]
  simp only [putAll_ofPairs]

/-! ## names and values of what is put together -/

theorem names_put (m : Fields) (n : String) (v : Json) :
    (m.put n v).names = if n ∈ m.names then m.names else m.names ++ [n] := by
  induction m with
  | nil => simp [put, names]
  | cons e m ih =>
      obtain ⟨k, w⟩ := e
      simp only [names] at ih
      by_cases hk : k = n
      · simp [put, names, hk]
      · by_cases hn : n ∈ m.map (·.1)
        · simp_all [put, names]
        · simp_all [put, names, Ne.symm hk]

theorem get?_cons (e : String × Json) (m : Fields) (n : String) :
    get? (e :: m) n = if e.1 = n then some e.2 else get? m n := by
  by_cases hn : e.1 = n <;> simp [get?, hn]

theorem get?_put (m : Fields) (n n' : String) (v : Json) :
    (m.put n v).get? n' = if n = n' then some v else m.get? n' := by
  induction m with
  | nil => rw [put, get?_cons]
  | cons e m ih =>
      rw [put_cons]
      split
      · next hk =>
        subst hk
        rw [get?_cons, get?_cons]
        split <;> rfl
      · next hk =>
        rw [get?_cons, get?_cons, ih]
        split
        · next hn => rw [if_neg fun h => hk (hn.trans h.symm)]
        · rfl

theorem putAll_concat (m new : Fields) (e : String × Json) :
    m.putAll (new ++ [e]) = (m.putAll new).put e.1 e.2 := by
  simp [putAll]

/-- A name that is set again keeps the place of the first time. -/
theorem names_ofPairs (new : Fields) : (ofPairs new).names = new.names.eraseDups := by
  induction new using List.reverseRecOn with
  | nil => rfl
  | append_singleton new e ih =>
      have hnames : names (new ++ [e]) = names new ++ [e.1] := by simp [names]
      have hput : (ofPairs (new ++ [e])).names = _ :=
        (congrArg names (putAll_concat [] new e)).trans (names_put _ _ _)
      unfold ofPairs at ih
      rw [hput, ih, hnames, List.eraseDups_append]
      by_cases hn : e.1 ∈ names new <;> simp [hn, List.removeAll, List.eraseDups_cons]

theorem ofPairs_eq_nil_iff {new : Fields} : ofPairs new = [] ↔ new = [] := by
  refine ⟨fun h => ?_, fun h => by rw [h]; rfl⟩
  cases new with
  | nil => rfl
  | cons e new =>
      have hnames := names_ofPairs (e :: new)
      rw [h, names, names, List.map_cons, List.eraseDups_cons] at hnames
      cases hnames

/-- Of the values that are set under one name the last one stays. -/
theorem get?_ofPairs (new : Fields) (n : String) : (ofPairs new).get? n = get? new.reverse n := by
  induction new using List.reverseRecOn with
  | nil => rfl
  | append_singleton new e ih =>
      unfold ofPairs at ih ⊢
      rw [putAll_concat, get?_put, ih, List.reverse_append, List.reverse_singleton,
        List.singleton_append, get?_cons]

/-! ## leaving names out -/

theorem filter_put (keep : String → Bool) (m : Fields) (n : String) (v : Json) :
    (m.put n v).filter (fun e => keep e.1) =
      if keep n then put (m.filter fun e => keep e.1) n v else m.filter fun e => keep e.1 := by
  induction m with
  | nil => cases h : keep n <;> simp [put, h]
  | cons e m ih =>
      obtain ⟨k, w⟩ := e
      by_cases hk : k = n
      · subst hk
        cases h : keep k <;> simp [put, h]
      · cases h : keep n <;> cases h' : keep k <;> simp_all [put]

theorem filter_putAll (keep : String → Bool) (m new : Fields) :
    (m.putAll new).filter (fun e => keep e.1) =
      putAll (m.filter fun e => keep e.1) (new.filter fun e => keep e.1) := by
  induction new generalizing m with
  | nil => rfl
  | cons e new ih =>
      have hstep := ih (m.put e.1 e.2)
      rw [filter_put] at hstep
      cases h : keep e.1 <;> simp_all [putAll]

theorem nodup_filter {m : Fields} (h : m.names.Nodup) (keep : String × Json → Bool) :
    (names (m.filter keep)).Nodup :=
  h.sublist (List.filter_sublist.map _)

end Fields

/-! ## applying change sets -/

@[simp] theorem applyChanges_nil (fields : Fields) : applyChanges fields [] = fields := rfl

/-- A change set put together from two has the effect of one after the other. -/
theorem applyChanges_putAll {first : Fields} (h : first.names.Nodup) (fields second : Fields) :
    applyChanges fields (first.putAll second) = applyChanges (applyChanges fields first) second := by
  unfold applyChanges
  rw [Fields.filter_putAll (fun name => !isActionKey name),
    Fields.putAll_putAll (Fields.nodup_filter h _)]

theorem applyChanges_ofPairs (fields changes : Fields) :
    applyChanges fields (.ofPairs changes) = applyChanges fields changes :=
  applyChanges_putAll Fields.nodup_names_nil fields changes

/-- A change set put together from many has the effect of all of them, in their order. -/
theorem applyChanges_flatten (fields : Fields) (news : List Fields) :
    applyChanges fields (.ofPairs news.flatten) = news.foldl applyChanges fields := by
  induction news using List.reverseRecOn with
  | nil => rfl
  | append_singleton news new ih =>
      have hnodup : (Fields.ofPairs news.flatten).names.Nodup :=
        Fields.nodup_putAll Fields.nodup_names_nil _
      have hput : Fields.ofPairs (news ++ [new]).flatten = (Fields.ofPairs news.flatten).putAll new := by
        simp [Fields.ofPairs, Fields.putAll]
      rw [hput, applyChanges_putAll hnodup, ih, List.foldl_append]
      rfl

/-! ## change sets without list actions -/

theorem resolveKeys_of_plain (fields all changes resolved : Fields)
    (plain : ∀ n ∈ changes.names, isActionKey n = false) :
    resolveKeys fields all resolved changes = .ok (resolved.putAll changes) := by
  induction changes generalizing resolved with
  | nil => rfl
  | cons e changes ih =>
      obtain ⟨key, value⟩ := e
      have hkey : parseActionKey? key = none := by
        simpa [isActionKey] using plain key (by simp [Fields.names])
      have hrest : ∀ n ∈ Fields.names changes, isActionKey n = false :=
        fun n hn => plain n (List.mem_cons_of_mem _ hn)
      simp only [resolveKeys, resolveKey, hkey]
      exact ih (resolved.put key value) hrest

/-- A change set without list actions resolves to itself, names that occur twice aside. -/
theorem resolve_of_plain (fields changes : Fields)
    (plain : ∀ n ∈ changes.names, isActionKey n = false) :
    resolve fields changes = .ok (.ofPairs changes) :=
  resolveKeys_of_plain fields changes changes [] plain

end ViewSync
