import EntitySql.Proofs.Sql.Restriction
import EntitySql.Proofs.Sql.RowKeys
import Mathlib.Data.List.Perm.Subperm

/-!
# The key of a replacement

SQLite merges by `INSERT OR REPLACE`, which goes by the keys of the table and not by the qualifiers of a
request. So the qualifiers should be the primary columns, and the builder compares two lists for that:
they have to be of one length, and every key has to be primary. Of lists that name no column twice this
says that they name the same columns (`sameNames_of_distinct`).

Nothing keeps the qualifiers of a request from naming a column twice. **`replacement_keys`**: a merge that
SQLite takes goes by the primary columns, provided that no two qualifiers are one name; and in a table
whose primary columns are apart it does so only then. With one qualifier written twice a merge on one
column of a key of two is taken as well (`replacement_keys_lines`).
-/

namespace EntitySql

open Text

/-! ### Names without their case -/

/-- A name in small letters, by which columns are told. -/
def foldedName (name : String) : List Char := name.toList.map Char.toLower

namespace Column

/-- The names of columns in small letters. -/
def foldedNames (cs : List Column) : List (List Char) := cs.map fun c => foldedName c.name

theorem isNamed_iff {c : Column} {name : String} :
    c.isNamed name = true ↔ foldedName c.name = foldedName name := equalIgnoringCase_iff

/-- Columns are apart if their names in small letters are. -/
theorem distinct_iff {cs : List Column} : Distinct cs ↔ (foldedNames cs).Nodup := by
  rw [foldedNames, List.Nodup, List.pairwise_map]
  refine List.Pairwise.iff fun {c d} => ?_
  rw [Bool.eq_false_iff, ne_eq, equalIgnoringCase_iff, foldedName, foldedName]

end Column

namespace Request

open Column

variable {r : Request} {ks ps : List Column}

theorem contains_iff {c : Column} :
    contains ps c = true ↔ foldedName c.name ∈ foldedNames ps := by
  simp only [contains, List.any_eq_true, isNamed_iff, foldedNames, List.mem_map]

theorem contains_of_mem {c : Column} (h : c ∈ ps) : contains ps c = true :=
  contains_iff.mpr (List.mem_map_of_mem h)

/-- Two lists of columns have the same names in them. -/
def SameNames (ks ps : List Column) : Prop := ∀ c, contains ks c = true ↔ contains ps c = true

/-- Columns that are apart, all of them named among as many others, have the names of the others. -/
theorem perm_foldedNames (hlength : ks.length = ps.length) (hmem : ∀ k ∈ ks, contains ps k = true)
    (hd : Distinct ks) : (foldedNames ks).Perm (foldedNames ps) := by
  have hsubset : foldedNames ks ⊆ foldedNames ps := by
    intro name hname
    obtain ⟨k, hk, rfl⟩ := List.mem_map.mp hname
    exact contains_iff.mp (hmem k hk)
  refine ((distinct_iff.mp hd).subperm hsubset).perm_of_length_le ?_
  rw [foldedNames, foldedNames, List.length_map, List.length_map, hlength]

theorem sameNames_of_distinct (hlength : ks.length = ps.length)
    (hmem : ∀ k ∈ ks, contains ps k = true) (hd : Distinct ks) : SameNames ks ps := by
  intro c
  rw [contains_iff, contains_iff, (perm_foldedNames hlength hmem hd).mem_iff]

/-- As many columns with the names of columns that are apart are apart. -/
theorem distinct_of_sameNames (hlength : ks.length = ps.length) (h : SameNames ks ps)
    (hd : Distinct ps) : Distinct ks := by
  have hmem : ∀ p ∈ ps, contains ks p = true := fun p hp => (h p).mpr (contains_of_mem hp)
  have hperm := perm_foldedNames hlength.symm hmem hd
  exact distinct_iff.mpr (hperm.nodup_iff.mp (distinct_iff.mp hd))

/-! ### Qualifiers -/

/-- No two of the qualifiers that are given are one name. -/
def QualifiersApart (r : Request) : Prop :=
  (r.qualifiers.getD []).Pairwise fun a b => equalIgnoringCase a b = false

/-- The qualifying columns have the names of the qualifiers. -/
theorem foldedNames_explicitQualifiers (h : r.explicitQualifiers = .ok ks) :
    foldedNames ks = (r.qualifiers.getD []).map foldedName := by
  unfold explicitQualifiers at h
  cases hq : r.qualifiers with
  | none =>
    rw [hq] at h
    cases h
    rfl
  | some names =>
    rw [hq] at h
    have hall := mapM_eq_ok_iff.mp h
    rw [Option.getD_some]
    clear h hq
    induction hall with
    | nil => rfl
    | cons hk _ ih =>
      have hname := isNamed_iff.mp (isNamed_of_qualifier hk)
      rw [foldedNames, List.map_cons, List.map_cons, hname]
      exact congrArg (foldedName _ :: ·) ih

/-- The columns that tell a row are apart if the qualifiers are. -/
theorem distinct_rowKeys_iff (h : r.rowKeys = .ok ks) : Distinct ks ↔ r.QualifiersApart := by
  obtain ⟨explicit, hexplicit, -⟩ := bind_eq_ok_iff.mp h
  have hnames := foldedNames_explicitQualifiers hexplicit
  have hapart : r.QualifiersApart ↔ ((r.qualifiers.getD []).map foldedName).Nodup := by
    rw [QualifiersApart, List.Nodup, List.pairwise_map]
    refine List.Pairwise.iff fun {a b} => ?_
    rw [Bool.eq_false_iff, ne_eq, equalIgnoringCase_iff, foldedName, foldedName]
  rcases rowKeys_of_explicitQualifiers hexplicit h with rfl | rfl
  · -- without qualifiers the rows are told by one column
    have hnone : (r.qualifiers.getD []) = [] := List.map_eq_nil_iff.mp hnames.symm
    obtain ⟨-, key, -, -, rfl⟩ := rowKeys_first hnone h
    rw [hapart, hnone]
    simp [Distinct]
  · rw [distinct_iff, hnames, hapart]

/-- The primary columns of the table. -/
def primaries (r : Request) : List Column := r.schema.filter fun c => c.primary

end Request

namespace Sql

variable {r : Request}

/-- The qualifiers of a replacement are as many as the primary columns, and all of them primary. -/
theorem requirePrimaryQualifiers_eq_ok {d : Dialect} {ks : List Column} {u : Unit}
    (h : requirePrimaryQualifiers d r ks = .ok u) :
    ks.length = r.primaries.length ∧ ∀ k ∈ ks, Request.contains r.primaries k = true := by
  unfold requirePrimaryQualifiers at h
  simp only at h
  split at h
  · next hexact => exact ⟨hexact.2.1.symm, List.all_eq_true.mp hexact.2.2⟩
  · cases h

/-- **SQLite merges by the primary key if no qualifier is given twice.** The columns that tell the rows
of a merge that SQLite takes are as many as the primary columns of the table, and all of them are
primary. If no two qualifiers are one name, they are the primary columns, and in a table whose primary
columns are apart only then. -/
theorem replacement_keys {op : Operation} (hop : merges op = true) {text : String}
    (h : statementText .sqlite op r = .ok text) :
    ∃ keys, r.rowKeys = .ok keys ∧ keys.length = r.primaries.length ∧
      (∀ k ∈ keys, Request.contains r.primaries k = true) ∧
      (r.QualifiersApart → Request.SameNames keys r.primaries) ∧
      (Column.Distinct r.primaries → Request.SameNames keys r.primaries → r.QualifiersApart) := by
  obtain ⟨ss, hss, -⟩ := map_eq_ok_iff.mp h
  obtain ⟨m, batch, hm, -, -, hrows⟩ := mergeRows_of_statements hop hss
  obtain ⟨u, hu, -⟩ := bind_eq_ok_iff.mp hrows
  have hkeys := (Request.rowKeys_of_mergeColumns hm).1
  obtain ⟨hlength, hmem⟩ := requirePrimaryQualifiers_eq_ok hu
  refine ⟨m.keys, hkeys, hlength, hmem, fun hapart => ?_, fun hd hsame => ?_⟩
  · exact Request.sameNames_of_distinct hlength hmem ((Request.distinct_rowKeys_iff hkeys).mpr hapart)
  · exact (Request.distinct_rowKeys_iff hkeys).mp (Request.distinct_of_sameNames hlength hsame hd)

namespace Sample

/-- Lines of orders, told by these qualifiers. -/
def linesBy (qualifiers : List String) : Request := { lines with qualifiers := some qualifiers }

end Sample

/-- A merge of lines by both columns of their key is one by the key, and one by the order alone, written
twice, is taken too. -/
theorem replacement_keys_lines :
    merges .merge = true ∧
      (∃ text keys, statementText .sqlite .merge (Sample.linesBy ["Number", "OrderId"]) = .ok text ∧
        (Sample.linesBy ["Number", "OrderId"]).rowKeys = .ok keys ∧
        Request.SameNames keys Sample.lines.primaries) ∧
      ∃ text keys, statementText .sqlite .merge (Sample.linesBy ["OrderId", "orderid"]) = .ok text ∧
        (Sample.linesBy ["OrderId", "orderid"]).rowKeys = .ok keys ∧
        ¬Request.SameNames keys Sample.lines.primaries := by
  refine ⟨rfl, ?_, ?_⟩
  · obtain ⟨text, htext⟩ : ∃ text, statementText .sqlite .merge
        (Sample.linesBy ["Number", "OrderId"]) = .ok text := ⟨_, rfl⟩
    obtain ⟨keys, hkeys, -, -, hsame, -⟩ := replacement_keys rfl htext
    exact ⟨text, keys, htext, hkeys, hsame (by unfold Request.QualifiersApart; decide)⟩
  · obtain ⟨text, htext⟩ : ∃ text, statementText .sqlite .merge
        (Sample.linesBy ["OrderId", "orderid"]) = .ok text := ⟨_, rfl⟩
    obtain ⟨keys, hkeys, -, -, -, honly⟩ := replacement_keys rfl htext
    refine ⟨text, keys, htext, hkeys, fun hsame => ?_⟩
    have hapart := honly (by unfold Column.Distinct; decide) hsame
    exact absurd hapart (by unfold Request.QualifiersApart; decide)

end Sql

end EntitySql
