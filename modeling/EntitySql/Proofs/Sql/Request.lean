import EntitySql.Proofs.Result
import EntitySql.Proofs.Text.LowerCase
import EntitySql.Sql.Request

/-!
# The columns of a request

The sets of columns that a statement writes and that a command binds are made of the columns asked for
(**`Request.mem_fields_of_boundColumns`**). A merge binds its keys and everything that it writes
(`Request.mergeColumns_spec`), and an update under a filter binds no keys
(`Request.updateColumns_spec`).
-/

namespace EntitySql

namespace Request

/-- The column of the key is the only one of its name that may be asked for. -/
def KeyApart (r : Request) : Prop :=
  ∀ key, r.key = some key → ∀ c ∈ r.fields, c.isNamed key.name = true → c = key

/-- No two of the columns asked for have one name. -/
def FieldsApart (r : Request) : Prop :=
  ∀ c ∈ r.fields, ∀ k ∈ r.fields, k.isNamed c.name = true → k = c

theorem mem_of_field? {r : Request} {name : String} {c : Column} (h : r.field? name = some c) :
    c ∈ r.fields :=
  List.mem_of_find?_eq_some h

theorem mem_of_qualifier {r : Request} {name : String} {c : Column}
    (h : r.qualifier name = .ok c) : c ∈ r.fields := by
  unfold qualifier at h
  split at h
  · next hc =>
    cases h
    exact mem_of_field? hc
  · cases h

theorem mem_of_explicitQualifiers {r : Request} {ks : List Column}
    (h : r.explicitQualifiers = .ok ks) : ∀ k ∈ ks, k ∈ r.fields := by
  unfold explicitQualifiers at h
  split at h
  · have hall := mapM_eq_ok_iff.mp h
    intro k hk
    obtain ⟨name, -, hname⟩ := exists_of_mem_right hall hk
    exact mem_of_qualifier hname
  · cases h
    exact fun k hk => by cases hk

/-- The columns that tell a row are among those asked for, and there is one. -/
theorem rowKeys_spec {r : Request} {ks : List Column} (h : r.rowKeys = .ok ks) :
    (∀ k ∈ ks, k ∈ r.fields) ∧ ks ≠ [] := by
  obtain ⟨explicit, hexplicit, h⟩ := bind_eq_ok_iff.mp h
  split at h
  · split at h
    · obtain ⟨c, hc, h⟩ := bind_eq_ok_iff.mp h
      cases h
      exact ⟨by simpa using mem_of_qualifier hc, by simp⟩
    · cases h
  · next hne =>
    cases h
    exact ⟨mem_of_explicitQualifiers hexplicit, by simpa using hne⟩

/-- The columns of an update are among those asked for, and under a filter it binds no keys. -/
theorem updateColumns_spec {r : Request} {u : UpdateColumns} (h : r.updateColumns = .ok u) :
    (∀ c ∈ u.set ++ u.keys, c ∈ r.fields) ∧ (r.activePredicate ≠ none → u.keys = []) := by
  have hset : ∀ (excluded : List Column), ∀ c ∈ r.fields.filter fun c =>
      !c.readOnly && !c.primary && !contains excluded c, c ∈ r.fields :=
    fun _ c hc => (List.mem_filter.mp hc).1
  unfold updateColumns at h
  cases hactive : r.activePredicate.isSome with
  | true =>
    rw [hactive, if_pos rfl] at h
    obtain ⟨excluded, -, h⟩ := bind_eq_ok_iff.mp h
    simp only [if_true] at h
    split at h
    · cases h
    · cases h
      exact ⟨by simpa using hset excluded, fun _ => rfl⟩
  | false =>
    rw [hactive, if_neg (by simp)] at h
    obtain ⟨excluded, hkeys, h⟩ := bind_eq_ok_iff.mp h
    simp only [Bool.false_eq_true, if_false] at h
    split at h
    · cases h
    · cases h
      refine ⟨fun c hc => ?_, fun hsome => absurd hactive (by simpa [Option.isSome_iff_ne_none])⟩
      rcases List.mem_append.mp hc with hc | hc
      · exact hset excluded c hc
      · exact (rowKeys_spec hkeys).1 c hc

/-- Without a filter an update tells its rows by the keys of the request. -/
theorem rowKeys_of_updateColumns {r : Request} (hnone : r.activePredicate = none)
    {u : UpdateColumns} (h : r.updateColumns = .ok u) : r.rowKeys = .ok u.keys := by
  unfold updateColumns at h
  rw [hnone] at h
  obtain ⟨keys, hkeys, h⟩ := bind_eq_ok_iff.mp h
  simp only [Option.isSome_none, Bool.false_eq_true, if_false] at h hkeys
  split at h
  · cases h
  · cases h
    exact hkeys

/-- Without a filter a deletion tells its rows by the keys of the request. -/
theorem rowKeys_of_deleteKeys {r : Request} (hnone : r.activePredicate = none)
    {ks : List Column} (h : r.deleteKeys = .ok ks) : r.rowKeys = .ok ks := by
  unfold deleteKeys at h
  rw [hnone] at h
  exact h

/-- The columns of a merge: the keys are bound, and what is written is bound. -/
theorem mergeColumns_spec {r : Request} {m : MergeColumns} (h : r.mergeColumns = .ok m) :
    (∀ k ∈ m.keys, k ∈ m.inputs) ∧ (∀ c ∈ m.inputs, c ∈ r.fields) ∧
      (∀ c ∈ m.inputs, c ∈ m.writable ∨ contains m.keys c = true) ∧
        (∀ c ∈ m.writable, c ∈ m.inputs) ∧ ∀ c ∈ m.set, c ∈ m.inputs := by
  obtain ⟨keys, hkeys, h⟩ := bind_eq_ok_iff.mp h
  cases h
  refine ⟨fun k hk => ?_, fun c hc => (List.mem_filter.mp hc).1, fun c hc => ?_,
    fun c hc => (List.mem_filter.mp hc).1, fun c hc => (List.mem_filter.mp hc).1⟩
  · have hself : contains keys k = true :=
      List.any_eq_true.mpr ⟨k, hk, Text.equalIgnoringCase_refl _⟩
    exact List.mem_filter.mpr ⟨(rowKeys_spec hkeys).1 k hk, by simp [hself]⟩
  · have hbound := (List.mem_filter.mp hc).2
    cases hc' : c.readOnly with
    | true => exact .inr (by simpa [hc'] using hbound)
    | false => exact .inl (List.mem_filter.mpr ⟨hc, by simp [hc']⟩)

theorem mem_fields_of_insertable {r : Request} : ∀ c ∈ r.insertable, c ∈ r.fields :=
  fun _ hc => (List.mem_filter.mp hc).1

/-- The columns that an operation binds are among those asked for. -/
theorem mem_fields_of_boundColumns {r : Request} {op : Operation} {inputs : List Column}
    (h : r.boundColumns op = .ok inputs) : ∀ c ∈ inputs, c ∈ r.fields := by
  cases op with
  | insert | insertAll n =>
    cases h
    exact mem_fields_of_insertable
  | update | updateAll n =>
    obtain ⟨u, hu, rfl⟩ := map_eq_ok_iff.mp h
    exact (updateColumns_spec hu).1
  | merge | mergeAll n =>
    obtain ⟨m, hm, rfl⟩ := map_eq_ok_iff.mp h
    exact (mergeColumns_spec hm).2.1
  | delete =>
    change r.deleteKeys = .ok inputs at h
    unfold deleteKeys at h
    split at h
    · cases h
      exact fun c hc => by cases hc
    · exact (rowKeys_spec h).1
  | _ =>
    cases h
    exact fun c hc => by cases hc

end Request

end EntitySql
