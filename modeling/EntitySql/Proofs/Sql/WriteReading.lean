import EntitySql.Proofs.Sql.Write

/-!
# What a statement writes is read back from its text

The readers of `EntitySql.Proofs.Sql.Write` look at tokens alone. Each of them gives back what the
fragments were made of, and leaves what stands behind them. What stands behind may matter: a list goes
on after a comma, a path after a period, and a clause may be left out only if the next word does not
start it, so the lemmas say which tokens must not come next.

Not every statement that could be built can be told from its text, for instance one that inserts no
columns. `Statement.Readable` says which can. The main statement, **`readWrites_statementList`**, is
that what statements of this kind write is read from their tokens. What gives back a key stands at the
end of a statement, and is skipped (`Statement.readWrite_body`).
-/

namespace EntitySql.Sql

variable {d : Dialect}

/-! ### Words -/

theorem lexes_closing : Lexes ")" [.sign ")"] := by decide

theorem lexes_opening : Lexes "(" [.sign "("] := by decide

theorem lexes_columns : Lexes " (" [.sign "("] := by decide

theorem lexes_as : Lexes " AS " [.word "AS"] := by decide

theorem lexes_source : Lexes "S." [.word "S", .sign "."] := by decide

theorem lexes_select : Lexes "SELECT " [.word "SELECT"] := by decide

theorem lexes_where : Lexes " WHERE " [.word "WHERE"] := by decide

theorem lexes_returning : Lexes " RETURNING " [.word "RETURNING"] := by decide

theorem lexes_output :
    Lexes " OUTPUT INSERTED." [.word "OUTPUT", .word "INSERTED", .sign "."] := by decide

theorem lexes_insertInto : Lexes "INSERT INTO " [.word "INSERT", .word "INTO"] := by decide

theorem lexes_onConflict :
    Lexes " ON CONFLICT (" [.word "ON", .word "CONFLICT", .sign "("] := by decide

theorem lexes_onDuplicate : Lexes " ON DUPLICATE KEY UPDATE "
    [.word "ON", .word "DUPLICATE", .word "KEY", .word "UPDATE"] := by decide

/-! ### Values and columns -/

/-- The value can be told from its text. -/
def Operand.Readable : Operand → Prop
  | .function _ => False
  | _ => True

theorem readOperand_append {v : Operand} (hv : v.Readable) (rest : List Token) :
    readOperand (v.fragments.tokens d ++ rest) = some (v, rest) := by
  cases v with
  | placeholder p => rfl
  | column c => rfl
  | function call => cases hv
  | number n =>
    have hlist : (toString n).toList = Nat.toDigits 10 n := by
      rw [Nat.toString_eq_repr, Nat.toList_repr]
    have hdigits : (toString n).toList.all Char.isDigit = true := by
      rw [hlist, List.all_eq_true]
      exact fun _ => isDigit_of_mem_digits
    have htokens : (Operand.number n).fragments.tokens d = [.word (toString n)] := by
      rw [Operand.fragments, Fragments.tokens_text, lex_number]
      rfl
    rw [htokens, List.singleton_append, readOperand, if_pos hdigits, hlist,
      Nat.ofDigitChars_ten_toDigits]
  | placeholderOrNull p =>
    have hopen : Lexes "NULLIF(" [.word "NULLIF", .sign "("] := by decide
    have hzero : Lexes ", 0)" [.sign ",", .word "0", .sign ")"] := by decide
    rw [Operand.fragments, hopen.tokens_text, tokens_placeholder, hzero.tokens_text]
    rfl
  | source c =>
    rw [Operand.fragments, lexes_source.tokens_text]
    rfl
  | excluded c =>
    have h : Lexes "EXCLUDED." [.word "EXCLUDED", .sign "."] := by decide
    rw [Operand.fragments, h.tokens_text]
    rfl
  | proposed c =>
    have h : Lexes "VALUES(" [.word "VALUES", .sign "("] := by decide
    rw [Operand.fragments, h.tokens_text, tokens_name, lexes_closing.tokens_text]
    rfl
  | remembered c =>
    have h : Lexes "LAST_INSERT_ID(" [.word "LAST_INSERT_ID", .sign "("] := by decide
    rw [Operand.fragments, h.tokens_text, tokens_name, lexes_closing.tokens_text]
    rfl

theorem readCommas_operandList {vs : List Operand} (hne : vs ≠ []) (hv : ∀ v ∈ vs, v.Readable)
    (rest : List Token) (hrest : rest.head? ≠ some (.sign ",")) :
    readCommas readOperand ((operandList vs).tokens d ++ rest) = some (vs, rest) := by
  rw [operandList, tokens_commaList]
  exact readSeparated_withBetween hne (fun v h rest => readOperand_append (hv v h) rest) hrest

/-- A row of values can be told from its text. -/
def RowReadable (row : List Operand) : Prop := row ≠ [] ∧ ∀ v ∈ row, v.Readable

theorem readRow_append {row : List Operand} (h : RowReadable row) (rest : List Token) :
    readRow (.sign "(" :: ((operandList row).tokens d ++ .sign ")" :: rest)) = some (row, rest) :=
  readBrackets_append (readCommas_operandList h.1 h.2 _ (by simp))

theorem readColumns_append {names : List String} (hne : names ≠ []) (rest : List Token) :
    readColumns (.sign "(" :: ((columnList names).tokens d ++ .sign ")" :: rest)) =
      some (names, rest) := by
  rw [columnList, tokens_commaList]
  exact readBrackets_append
    (readSeparated_withBetween hne (fun c _ rest => readName_name c rest) (by simp))

theorem readCommas_rows {rows : List (List Operand)} (hne : rows ≠ [])
    (hrows : ∀ row ∈ rows, RowReadable row) (rest : List Token)
    (hrest : rest.head? ≠ some (.sign ",")) :
    readCommas readRow ((commaList rowFragments rows).tokens d ++ rest) = some (rows, rest) := by
  rw [tokens_commaList]
  refine readSeparated_withBetween hne (fun row h rest => ?_) hrest
  simpa [rowFragments, Fragments.tokens_append, lexes_opening.tokens_text,
    lexes_closing.tokens_text, Fragments.tokens_nil] using readRow_append (d := d) (hrows row h) rest

/-- Assignments are read back as the columns and what is assigned to them. -/
theorem readCommas_assignmentList {set : List Assignment} (hne : set ≠ [])
    (hv : ∀ x ∈ set, x.value.Readable) (rest : List Token)
    (hrest : rest.head? ≠ some (.sign ",")) :
    readCommas readPair ((assignmentList set).tokens d ++ rest) =
      some (set.map Assignment.pair, rest) := by
  have hequals : Lexes " = " [.sign "="] := by decide
  have htokens : (assignmentList set).tokens d = withBetween (.sign ",")
      ((set.map Assignment.pair).map fun x => .name x.1 :: .sign "=" :: x.2.fragments.tokens d) := by
    rw [assignmentList, tokens_commaList, List.map_map]
    simp only [tokens_name, hequals.tokens_text, List.singleton_append]
    rfl
  rw [htokens]
  refine readSeparated_withBetween (by simpa using hne) (fun x hx rest => ?_) hrest
  obtain ⟨a, ha, rfl⟩ := List.mem_map.mp hx
  have hvalue := readOperand_append (d := d) (hv a ha) rest
  simp [readPair, Assignment.pair, hvalue]

theorem readTable_append {t : TableRef} (h : t.hints = none) (rest : List Token)
    (hrest : rest.head? ≠ some (.sign ".")) :
    readTable (t.fragments.tokens d ++ rest) = some (nameParts t.name, rest) := by
  simp only [TableRef.fragments, h, List.append_nil, dottedName, tokens_pathFragments]
  exact readPath_pathTokens (nameParts_ne_nil _) hrest

/-! ### Insertions -/

/-- What is done on a conflict can be told from its text. -/
def Conflict.Readable : Conflict → Prop
  | .onKey keys set => keys ≠ [] ∧ ∀ x ∈ set, x.value.Readable
  | .onDuplicate set => set ≠ [] ∧ ∀ x ∈ set, x.value.Readable
  | _ => True

/-- An insertion can be told from its text. -/
structure Insert.Readable (i : Insert) : Prop where
  columns : i.columns ≠ []
  rows : i.rows ≠ []
  values : ∀ row ∈ i.rows, RowReadable row
  conflict : i.conflict.Readable

/-- Neither the rows of an insertion nor its clause for a conflict go on with these tokens. -/
def EndsInsert (rest : List Token) : Prop :=
  rest.head? ≠ some (.sign ",") ∧ rest.head? ≠ some (.word "ON")

theorem readConflict_append {c : Conflict} (hc : c.Readable) {rest : List Token}
    (hrest : EndsInsert rest) :
    readConflict (c.clause.tokens d ++ rest) = some ((c.matched, c.set), rest) := by
  have hno (ts : List Token) : optionally (tokens (.word "ON" :: ts)) rest = some (false, rest) :=
    optionally_none (tokens_none hrest.2)
  -- without a clause both attempts to read one stop at the first word
  cases c with
  | fail | replace =>
    simp [Conflict.clause, Fragments.tokens_nil, readConflict, hno, Conflict.matched, Conflict.set]
  | onDuplicate set =>
    have hset := readCommas_assignmentList (d := d) hc.1 hc.2 rest hrest.1
    simp [Conflict.clause, lexes_onDuplicate.tokens_text, readConflict, optionally, tokens, token,
      hset, Conflict.matched, Conflict.set]
  | onKey keys set =>
    have hkeys (us : List Token) := readColumns_append (d := d) hc.1 us
    cases set with
    | nil =>
      have hnothing : Lexes ") DO NOTHING" [.sign ")", .word "DO", .word "NOTHING"] := by decide
      simp [Conflict.clause, Fragments.tokens_append, Fragments.tokens_nil,
        lexes_onConflict.tokens_text, hnothing.tokens_text, readConflict, optionally, tokens, hkeys,
        Conflict.matched, Conflict.set]
    | cons x set =>
      have hupdate : Lexes ") DO UPDATE SET "
        [.sign ")", .word "DO", .word "UPDATE", .word "SET"] := by decide
      have hset := readCommas_assignmentList (d := d) (by simp) hc.2 rest hrest.1
      simp [Conflict.clause, Fragments.tokens_append, lexes_onConflict.tokens_text,
        hupdate.tokens_text, readConflict, optionally, tokens, token, hkeys, hset, Conflict.matched,
        Conflict.set]

theorem head?_conflict_ne_comma {rest : List Token} (h : EndsInsert rest) (c : Conflict) :
    (c.clause.tokens d ++ rest).head? ≠ some (.sign ",") := by
  cases c with
  | fail | replace => exact h.1
  | onKey keys set => simp [Conflict.clause, lexes_onConflict.tokens_text]
  | onDuplicate set => simp [Conflict.clause, lexes_onDuplicate.tokens_text]

theorem endsInsert_returningClause (key : Option ReturnedKey) (rest : List Token) :
    EndsInsert ((returningClause key).tokens d ++ .sign ";" :: rest) := by
  cases key with
  | none => simp [EndsInsert, returningClause, Fragments.tokens_nil]
  | some key => simp [EndsInsert, returningClause, lexes_returning.tokens_text]

theorem values_notMem_outputClause (key : Option String) :
    .word "VALUES" ∉ (outputClause false key).tokens d := by
  cases key with
  | none => simp [outputClause, Fragments.tokens_nil]
  | some key =>
    simp [outputClause, lexes_output.tokens_text, lexes_as.tokens_text, tokens_name,
      Fragments.tokens_nil]

theorem readWrite_verb (c : Conflict) (fs : Fragments) (rest : List Token) :
    readWrite (Fragments.tokens d (.text c.verb :: fs) ++ rest) =
      (some <$> readInto) (fs.tokens d ++ rest) := by
  have hreplace : Lexes "INSERT OR REPLACE INTO "
    [.word "INSERT", .word "OR", .word "REPLACE", .word "INTO"] := by decide
  cases c with
  | replace =>
    simp [Conflict.verb, hreplace.tokens_text, readWrite, readInsert, optionally, tokens]
  | _ =>
    simp [Conflict.verb, lexes_insertInto.tokens_text, readWrite, readInsert, optionally, tokens,
      token]

theorem readWrite_insert {i : Insert} (ht : i.table.hints = none) (h : i.Readable)
    (rest : List Token) :
    readWrite (i.fragments.tokens d ++ .sign ";" :: rest) =
      some ((Statement.insert i).write?,
        (returningClause i.returning).tokens d ++ .sign ";" :: rest) := by
  have hvalues : Lexes " VALUES " [.word "VALUES"] := by decide
  have htable (us : List Token) := readTable_append (d := d) ht (.sign "(" :: us) (by simp)
  have hskip (us : List Token) := skipTo_append (values_notMem_outputClause (d := d) i.output) us
  have hends := endsInsert_returningClause (d := d) i.returning rest
  have hrows := readCommas_rows (d := d) h.rows h.values _
    (head?_conflict_ne_comma (d := d) hends i.conflict)
  have hconflict := readConflict_append (d := d) h.conflict hends
  simp only [Insert.fragments, Fragments.tokens_append, lexes_columns.tokens_text,
    lexes_closing.tokens_text, hvalues.tokens_text, readWrite_verb, List.append_assoc,
    List.cons_append, List.nil_append]
  simp [readInto, htable, readColumns_append h.columns, hskip, hrows, hconflict, Statement.write?]

/-! ### Merges -/

/-- The source of a merge can be told from its text. -/
def MergeSource.Readable : MergeSource → Prop
  | .row columns => columns ≠ [] ∧ ∀ x ∈ columns, x.value.Readable
  | .rows columns values => columns ≠ [] ∧ values ≠ [] ∧ ∀ row ∈ values, RowReadable row

theorem readSource_append {s : MergeSource} (h : s.Readable) (rest : List Token) :
    readSource (s.fragments.tokens d ++ rest) = some (s, rest) := by
  cases s with
  | row columns =>
    have hopen : Lexes "(SELECT " [.sign "(", .word "SELECT"] := by decide
    have hclose : Lexes ") AS S" [.sign ")", .word "AS", .word "S"] := by decide
    have hnamed : ∀ x ∈ columns, ∀ rest, readNamed
        (Fragments.tokens d (x.value.fragments ++ [Fragment.text " AS ", .name x.column]) ++ rest) =
          some (x, rest) := by
      intro x hx rest
      have hvalue (us : List Token) := readOperand_append (d := d) (h.2 x hx) us
      simp [readNamed, Fragments.tokens_append, lexes_as.tokens_text, tokens_name,
        Fragments.tokens_nil, hvalue]
    have hlist := readSeparated_withBetween h.1 hnamed
      (show (Token.sign ")" :: .word "AS" :: .word "S" :: rest).head? ≠ some (.sign ",") by simp)
    rw [← tokens_commaList, ← readCommas] at hlist
    simp only [MergeSource.fragments, Fragments.tokens_append, hopen.tokens_text,
      hclose.tokens_text, Fragments.tokens_nil, List.append_assoc, List.cons_append,
      List.nil_append]
    simp [readSource, optionally, tokens, hlist]
  | rows columns values =>
    have hopen : Lexes "(VALUES " [.sign "(", .word "VALUES"] := by decide
    have has : Lexes ") AS S (" [.sign ")", .word "AS", .word "S", .sign "("] := by decide
    have hrows (us : List Token) :=
      readCommas_rows (d := d) h.2.1 h.2.2 (.sign ")" :: us) (by simp)
    simp [MergeSource.fragments, Fragments.tokens_append, hopen.tokens_text, has.tokens_text,
      lexes_closing.tokens_text, Fragments.tokens_nil, readSource, optionally, token_ne, hrows,
      tokens, readColumns_append h.1]

/-- The condition of a merge is read back as the columns of its source. -/
theorem readMatches_append {columns : Option (List String)} (h : columns ≠ some [])
    (rest : List Token) :
    readMatches ((matchFragments columns).tokens d ++ rest) =
      some (fromSource (columns.getD []), rest) := by
  cases columns with
  | none =>
    have hno : Lexes "1 = 0" [.word "1", .sign "=", .word "0"] := by decide
    simp [matchFragments, hno.tokens_text, Fragments.tokens_nil, readMatches, optionally, tokens,
      fromSource]
  | some columns =>
    have htarget : Lexes " = T." [.sign "=", .word "T", .sign "."] := by decide
    have hand : lex d " AND ".toList = [.word "AND"] := by cases d <;> decide
    have hpairs : ∀ x ∈ fromSource columns, ∀ rest,
        readMatch ([Token.word "S", .sign ".", .name x.1, .sign "=", .word "T", .sign ".",
          .name x.1] ++ rest) = some (x, rest) := by
      intro x hx rest
      obtain ⟨c, -, rfl⟩ := List.mem_map.mp hx
      rfl
    have hlist := readBrackets_append (readSeparated_withBetween (by simpa [fromSource] using h)
      hpairs (show (Token.sign ")" :: rest).head? ≠ some (.word "AND") by simp))
    have htokens : (separated " AND " (columns.map fun c =>
        [.text "S.", .name c, .text " = T.", .name c])).tokens d =
          withBetween (.word "AND") ((fromSource columns).map fun x =>
            [.word "S", .sign ".", .name x.1, .sign "=", .word "T", .sign ".", .name x.1]) := by
      rw [tokens_separated hand, fromSource, List.map_map, List.map_map]
      simp [Function.comp_def, lexes_source.tokens_text, htarget.tokens_text, tokens_name,
        Fragments.tokens_nil]
    simp [matchFragments, Fragments.tokens_append, lexes_opening.tokens_text,
      lexes_closing.tokens_text, htokens, Fragments.tokens_nil, readMatches, optionally, tokens,
      token_ne, hlist]

theorem readNewRow_append (columns : List String) (rest : List Token) :
    readNewRow ((mergeInsert columns).tokens d ++ rest) =
      some ((columns, columns.map .source), rest) := by
  cases columns with
  | nil =>
    have h : Lexes "INSERT DEFAULT VALUES" [.word "INSERT", .word "DEFAULT", .word "VALUES"] := by
      decide
    simp [mergeInsert, h.tokens_text, Fragments.tokens_nil, readNewRow, optionally, tokens]
  | cons c cs =>
    have hopen : Lexes "INSERT (" [.word "INSERT", .sign "("] := by decide
    have hvalues : Lexes ") VALUES (" [.sign ")", .word "VALUES", .sign "("] := by decide
    have hno (us : List Token) : optionally (tokens [.word "DEFAULT", .word "VALUES"])
        (.sign "(" :: us) = some (false, .sign "(" :: us) := optionally_none rfl
    have hreadable : RowReadable (.source c :: cs.map .source) := by
      refine ⟨by simp, fun v hv => ?_⟩
      rw [← List.map_cons] at hv
      obtain ⟨n, -, rfl⟩ := List.mem_map.mp hv
      trivial
    simp [mergeInsert, Fragments.tokens_append, hopen.tokens_text, hvalues.tokens_text,
      lexes_closing.tokens_text, Fragments.tokens_nil, readNewRow, hno, readColumns_append,
      readRow_append hreadable]

/-- The update of a merge is read back as the columns of its source. -/
theorem readUpdated_append (columns : List String) (rest : List Token)
    (hcomma : rest.head? ≠ some (.sign ",")) (hwhen : rest.head? ≠ some (.word "WHEN")) :
    readUpdated ((mergeUpdate columns).tokens d ++ rest) = some (fromSource columns, rest) := by
  cases columns with
  | nil =>
    have hno (ts : List Token) : optionally (tokens (.word "WHEN" :: ts)) rest = some (false, rest) :=
      optionally_none (tokens_none hwhen)
    simp [mergeUpdate, Fragments.tokens_nil, readUpdated, hno, fromSource]
  | cons c cs =>
    have hupdate : Lexes " WHEN MATCHED THEN UPDATE SET "
      [.word "WHEN", .word "MATCHED", .word "THEN", .word "UPDATE", .word "SET"] := by decide
    have htarget : Lexes "T." [.word "T", .sign "."] := by decide
    have hsource : Lexes " = S." [.sign "=", .word "S", .sign "."] := by decide
    have hpairs : ∀ x ∈ fromSource (c :: cs), ∀ rest,
        readTarget ([Token.word "T", .sign ".", .name x.1, .sign "=", .word "S", .sign ".",
          .name x.1] ++ rest) = some (x, rest) := by
      intro x hx rest
      obtain ⟨c, -, rfl⟩ := List.mem_map.mp hx
      rfl
    have hlist := readSeparated_withBetween (by simp [fromSource]) hpairs hcomma
    have htokens : (commaList (fun c => [.text "T.", .name c, .text " = S.", .name c])
        (c :: cs)).tokens d = withBetween (.sign ",") ((fromSource (c :: cs)).map fun x =>
          [.word "T", .sign ".", .name x.1, .sign "=", .word "S", .sign ".", .name x.1]) := by
      rw [tokens_commaList, fromSource, List.map_map]
      simp [Function.comp_def, hsource.tokens_text, htarget.tokens_text, tokens_name,
        Fragments.tokens_nil]
    simp only [mergeUpdate, List.isEmpty_cons, Bool.false_eq_true, if_false, hupdate.tokens_text,
      htokens]
    simp [readUpdated, optionally, tokens, readCommas, hlist]

/-- A merge can be told from its text. -/
structure Merge.Readable (m : Merge) : Prop where
  source : m.source.Readable
  matchOn : m.matchOn ≠ some []

theorem head?_outputClause (batch : Bool) (key : Option String) (rest : List Token) :
    ((outputClause batch key).tokens d ++ .sign ";" :: rest).head? = some (.sign ";") ∨
      ((outputClause batch key).tokens d ++ .sign ";" :: rest).head? = some (.word "OUTPUT") := by
  cases key with
  | none => exact .inl rfl
  | some key => simp [outputClause, lexes_output.tokens_text]

theorem readWrite_merge {m : Merge} (ht : m.table.hints = none) (h : m.Readable)
    (rest : List Token) :
    readWrite (m.fragments.tokens d ++ .sign ";" :: rest) =
      some ((Statement.merge m).write?,
        (outputClause m.batch m.output).tokens d ++ .sign ";" :: rest) := by
  have hmerge : Lexes "MERGE " [.word "MERGE"] := by decide
  have husing : Lexes " AS T USING " [.word "AS", .word "T", .word "USING"] := by decide
  have hon : Lexes " ON " [.word "ON"] := by decide
  have hwhen : Lexes " WHEN NOT MATCHED THEN "
    [.word "WHEN", .word "NOT", .word "MATCHED", .word "THEN"] := by decide
  have htable (us : List Token) :=
    readTable_append (d := d) ht (.word "AS" :: us) (by simp)
  have hset := readUpdated_append (d := d) m.set
    ((outputClause m.batch m.output).tokens d ++ .sign ";" :: rest)
    (by rcases head?_outputClause (d := d) m.batch m.output rest with h | h <;> simp [h])
    (by rcases head?_outputClause (d := d) m.batch m.output rest with h | h <;> simp [h])
  simp only [Merge.fragments, Fragments.tokens_append, hmerge.tokens_text, husing.tokens_text,
    hon.tokens_text, hwhen.tokens_text, List.append_assoc, List.cons_append, List.nil_append]
  simp only [readWrite, readMerge, tokens, bind_pure_comp, id_map', bind_assoc, Reading.map_apply,
    Reading.bind_apply, htable, Option.bind_some, token_cons, readSource_append h.source,
    readMatches_append h.matchOn, readNewRow_append, hset, Option.map_some, Statement.write?]

/-! ### Updates that insert -/

theorem tests_equalities (tests : List (String × String)) :
    (equalities tests).tests = tests.map fun t => (t.1, .placeholder t.2) := by
  simp [equalities, SearchCondition.tests, List.filterMap_map]

theorem tokens_equalities (tests : List (String × String)) (hne : tests ≠ []) :
    ((equalities tests).fragments true).tokens d =
      withBetween (.word "AND") ((equalities tests).tests.map fun x =>
        .name x.1 :: .sign "=" :: x.2.fragments.tokens d) := by
  have hand : lex d " AND ".toList = [.word "AND"] := by cases d <;> decide
  have hitems : ∀ tests : List (String × String),
      (SearchCondition.fragmentsOf (tests.map fun t => .compare [t.1] .equal true t.2)).map
          (Fragments.tokens d) =
        tests.map fun t => [.name t.1, .sign "=", .placeholder t.2] := by
    intro tests
    induction tests with
    | nil => rfl
    | cons t tests ih =>
      have hsign := lex_sign (d := d) .equal
      simp only [List.map_cons, SearchCondition.fragmentsOf, SearchCondition.fragments, comparison,
        if_true, Fragments.tokens_append, tokens_pathFragments, Fragments.tokens_text, hsign, ih]
      rfl
  have hisEmpty : (SearchCondition.fragmentsOf
      (tests.map fun t => .compare [t.1] .equal true t.2)).isEmpty = false := by
    cases tests with
    | nil => exact absurd rfl hne
    | cons t tests => rfl
  rw [tests_equalities, equalities, SearchCondition.fragments, bracketed, joined, hisEmpty]
  simp only [Bool.false_eq_true, if_false, if_true]
  have hkeyword : " " ++ Conjunction.and.keyword ++ " " = " AND " := by decide
  rw [hkeyword, tokens_separated hand, hitems, List.map_map]
  rfl

theorem readTests_append {tests : List (String × String)} (hne : tests ≠ []) (rest : List Token)
    (hrest : rest.head? ≠ some (.word "AND")) :
    readTests ((whereClause (some (equalities tests))).tokens d ++ rest) =
      some ((equalities tests).tests, rest) := by
  have hpairs : ∀ x ∈ (equalities tests).tests, ∀ rest,
      readPair (.name x.1 :: .sign "=" :: x.2.fragments.tokens d ++ rest) = some (x, rest) := by
    intro x hx rest
    rw [tests_equalities] at hx
    obtain ⟨t, -, rfl⟩ := List.mem_map.mp hx
    rfl
  have hlist := readSeparated_withBetween (by simpa [tests_equalities] using hne) hpairs hrest
  rw [whereClause, lexes_where.tokens_text, tokens_equalities tests hne]
  simp [readTests, hlist]

/-- An update that inserts can be told from its text. -/
structure UpdateOrInsert.Readable (u : UpdateOrInsert) : Prop where
  filter : ∃ tests ≠ [], u.filter = equalities tests
  set : ∀ x ∈ u.set, x.value.Readable
  values : u.columns = [] ∧ u.values = [] ∨ u.columns ≠ [] ∧ RowReadable u.values

theorem readMatched_append {u : UpdateOrInsert} (ht : u.table.hints = none) (h : u.Readable)
    (rest : List Token) :
    readMatched (u.matched.tokens d ++ .sign ")" :: rest) =
      some ((u.filter.tests, u.set.map Assignment.pair), .sign ")" :: rest) := by
  obtain ⟨tests, hne, hfilter⟩ := h.filter
  have hclause (us : List Token) :
      ((whereClause (some (equalities tests))).tokens d ++ us).head? = some (.word "WHERE") := by
    rw [whereClause, lexes_where.tokens_text]
    rfl
  rw [hfilter]
  unfold UpdateOrInsert.matched
  cases hset : u.set with
  | nil =>
    have hfrom : Lexes " FROM " [.word "FROM"] := by decide
    have htests := readTests_append (d := d) hne (.sign ")" :: rest) (by simp)
    have htable := readTable_append (d := d) ht
      ((whereClause (some (equalities tests))).tokens d ++ .sign ")" :: rest)
      (by simp [hclause])
    simp [hfilter, Fragments.tokens_append, lexes_select.tokens_text, tokens_name,
      hfrom.tokens_text, readMatched, optionally, htable, htests]
  | cons x set =>
    have hupdate : Lexes "UPDATE " [.word "UPDATE"] := by decide
    have hsetWord : Lexes " SET " [.word "SET"] := by decide
    have hno (us : List Token) : optionally (token (.word "SELECT")) (.word "UPDATE" :: us) =
      some (false, .word "UPDATE" :: us) := optionally_none (token_ne (by simp) us)
    have htests (us : List Token) :=
      readTests_append (d := d) hne (.word "RETURNING" :: us) (by simp)
    have htable (us : List Token) :=
      readTable_append (d := d) ht (.word "SET" :: us) (by simp)
    have hassign (us : List Token) :=
      readCommas_assignmentList (d := d) (List.cons_ne_nil x set) (hset ▸ h.set)
        ((whereClause (some (equalities tests))).tokens d ++ us) (by simp [hclause])
    simp [hfilter, Fragments.tokens_append, hupdate.tokens_text, hsetWord.tokens_text,
      lexes_returning.tokens_text, tokens_name, Fragments.tokens_nil, readMatched, hno, htable,
      hassign, htests]

theorem readInserted_append {u : UpdateOrInsert} (ht : u.table.hints = none) (h : u.Readable)
    (rest : List Token) :
    readInserted (u.inserted.tokens d ++ rest) = some ((u.columns, u.values), rest) := by
  have hexists : Lexes " WHERE NOT EXISTS (SELECT 1 FROM matched)" [.word "WHERE", .word "NOT",
    .word "EXISTS", .sign "(", .word "SELECT", .word "1", .word "FROM", .word "matched",
    .sign ")"] := by decide
  unfold UpdateOrInsert.inserted
  rcases h.values with ⟨hcolumns, hvalues⟩ | ⟨hcolumns, hvalues⟩
  · have hselect : Lexes " SELECT" [.word "SELECT"] := by decide
    have htable (us : List Token) :=
      readTable_append (d := d) ht (.word "SELECT" :: us) (by simp)
    simp [hcolumns, hvalues, Fragments.tokens_append, lexes_insertInto.tokens_text,
      hselect.tokens_text, hexists.tokens_text, Fragments.tokens_nil, readInserted, readSelected,
      optionally, tokens, htable]
  · have hselect : Lexes ") SELECT " [.sign ")", .word "SELECT"] := by decide
    have hno (us : List Token) : optionally (token (.word "SELECT")) (.sign "(" :: us) =
      some (false, .sign "(" :: us) := optionally_none (token_ne (by simp) us)
    have htable (us : List Token) :=
      readTable_append (d := d) ht (.sign "(" :: us) (by simp)
    have hlist (us : List Token) := readCommas_operandList (d := d) hvalues.1 hvalues.2
      (.word "WHERE" :: us) (by simp)
    simp [hcolumns, Fragments.tokens_append, lexes_insertInto.tokens_text,
      lexes_columns.tokens_text, hselect.tokens_text, hexists.tokens_text, Fragments.tokens_nil,
      readInserted, readSelected, hno, tokens, htable, readColumns_append hcolumns, hlist]

/-- What stands behind the insertion of an update that inserts: the key that is given back. -/
def UpdateOrInsert.tail (u : UpdateOrInsert) : Fragments :=
  if u.key then
    let result := [.name u.returned, .text " AS ", .name resultColumn] ++ rowNumber u.row
    [.text " RETURNING ", .name u.returned, .text ") SELECT "] ++ result ++
      .text " FROM matched UNION ALL SELECT " :: result ++ [.text " FROM inserted"]
  else []

theorem readWrite_updateOrInsert {u : UpdateOrInsert} (ht : u.table.hints = none) (h : u.Readable)
    (rest : List Token) :
    readWrite (u.fragments.tokens d ++ .sign ";" :: rest) =
      some ((Statement.updateOrInsert u).write?, u.tail.tokens d ++ .sign ";" :: rest) := by
  have hwith : Lexes "WITH matched AS (" [.word "WITH", .word "matched", .word "AS", .sign "("] := by
    decide
  have hmatched (us : List Token) := readBrackets_append (readMatched_append (d := d) ht h us)
  have hinserted (us : List Token) := readInserted_append (d := d) ht h us
  unfold UpdateOrInsert.fragments UpdateOrInsert.tail
  -- where a key is given back, the insertion is a step of its own in brackets
  cases u.key with
  | true =>
    have hinsert : Lexes "), inserted AS ("
      [.sign ")", .sign ",", .word "inserted", .word "AS", .sign "("] := by decide
    simp only [if_true, Fragments.tokens_append, hwith.tokens_text, hinsert.tokens_text,
      List.append_assoc, List.cons_append, List.nil_append]
    simp [readWrite, readUpdateOrInsert, tokens, hmatched, optionally, hinserted, Statement.write?]
  | false =>
    have hinsert : Lexes ") " [.sign ")"] := by decide
    have hno (us : List Token) : optionally
        (tokens [.sign ",", .word "inserted", .word "AS", .sign "("])
          (u.inserted.tokens d ++ us) = some (false, u.inserted.tokens d ++ us) := by
      refine optionally_none (tokens_none ?_)
      simp [UpdateOrInsert.inserted, lexes_insertInto.tokens_text, Fragments.tokens_append]
    have hfirst (us : List Token) : tokens [.word "matched", .word "AS"]
        (.word "matched" :: .word "AS" :: us) = some ((), us) := tokens_append _ us
    simp only [Bool.false_eq_true, if_false, Fragments.tokens_append, hwith.tokens_text,
      hinsert.tokens_text, List.append_assoc, List.cons_append, List.nil_append,
      Fragments.tokens_nil]
    simp [readWrite, readUpdateOrInsert, hfirst, hmatched, hno, hinserted, Statement.write?]

/-! ### Statements -/

/-- A statement that writes, or asks for a key, can be told from its text. -/
def Statement.Readable : Statement → Prop
  | .insert i => i.Readable
  | .merge m => m.Readable
  | .updateOrInsert u => u.Readable
  | .selectKey (.function call) _ => ';' ∉ call.toList
  | .selectKey (.placeholder _) _ => True
  | _ => False

/-- No statement ends in the fragments. -/
def Fragments.Unended (fs : Fragments) : Prop := ∀ s, .text s ∈ fs → ';' ∉ s.toList

namespace Fragments.Unended

variable {fs gs : Fragments}

theorem nil : Fragments.Unended [] := fun _ h => by cases h

theorem append (h : fs.Unended) (h' : gs.Unended) : Fragments.Unended (fs ++ gs) := by
  intro s hs
  rcases List.mem_append.mp hs with hs | hs
  · exact h s hs
  · exact h' s hs

theorem text {s : String} (hs : ';' ∉ s.toList) (h : fs.Unended) :
    Fragments.Unended (.text s :: fs) := by
  intro t ht
  rcases List.mem_cons.mp ht with ht | ht
  · cases ht
    exact hs
  · exact h t ht

theorem name {n : String} (h : fs.Unended) : Fragments.Unended (.name n :: fs) := by
  intro t ht
  rcases List.mem_cons.mp ht with ht | ht
  · cases ht
  · exact h t ht

end Fragments.Unended

theorem unended_rowNumber (row : Option Nat) : (rowNumber row).Unended := by
  cases row with
  | none => exact .nil
  | some i =>
    refine .text (fun hmem => ?_) (.name .nil)
    rw [String.toList_append, String.toList_append, List.mem_append, List.mem_append,
      Nat.toString_eq_repr, Nat.toList_repr] at hmem
    rcases hmem with (hmem | hmem) | hmem
    · exact absurd hmem (by decide)
    · exact absurd (isDigit_of_mem_digits hmem) (by decide)
    · exact absurd hmem (by decide)

theorem unended_returningClause (key : Option ReturnedKey) : (returningClause key).Unended := by
  cases key with
  | none => exact .nil
  | some key =>
    have hkey : Fragments.Unended [.text " RETURNING ", .name key.column, .text " AS ",
        .name resultColumn] := .text (by decide) (.name (.text (by decide) (.name .nil)))
    exact hkey.append (unended_rowNumber key.row)

theorem unended_outputClause (batch : Bool) (key : Option String) :
    (outputClause batch key).Unended := by
  cases key with
  | none => exact .nil
  | some key =>
    have hkey : Fragments.Unended [.text " OUTPUT INSERTED.", .name key, .text " AS ",
        .name resultColumn] := .text (by decide) (.name (.text (by decide) (.name .nil)))
    refine hkey.append ?_
    cases batch with
    | false => exact .nil
    | true => exact .text (by decide) (.name (.text (by decide) (.name .nil)))

theorem UpdateOrInsert.unended_tail (u : UpdateOrInsert) : u.tail.Unended := by
  unfold UpdateOrInsert.tail
  split
  · have hresult : Fragments.Unended
        ([Fragment.name u.returned, .text " AS ", .name resultColumn] ++ rowNumber u.row) :=
      Fragments.Unended.append (.name (.text (by decide) (.name .nil))) (unended_rowNumber u.row)
    have hfirst : Fragments.Unended [.text " RETURNING ", .name u.returned, .text ") SELECT "] :=
      .text (by decide) (.name (.text (by decide) .nil))
    exact ((hfirst.append hresult).append (.text (by decide) hresult)).append
      (.text (by decide) .nil)
  · exact .nil

/-- What a statement writes is read from its text; what is left gives back a key. -/
theorem Statement.readWrite_body {s : Statement} (hc : s.Clean) (h : s.Readable)
    (rest : List Token) :
    ∃ tail : Fragments, tail.Unended ∧
      readWrite (s.body.tokens d ++ .sign ";" :: rest) =
        some (s.write?, tail.tokens d ++ .sign ";" :: rest) := by
  cases s with
  | insert i => exact ⟨_, unended_returningClause _, readWrite_insert hc.1 h rest⟩
  | merge m => exact ⟨_, unended_outputClause _ _, readWrite_merge hc.1 h rest⟩
  | updateOrInsert u => exact ⟨_, u.unended_tail, readWrite_updateOrInsert hc.1 h rest⟩
  | selectKey value row =>
    refine ⟨value.fragments ++ [Fragment.text " AS ", .name resultColumn] ++ rowNumber row, ?_, ?_⟩
    · refine Fragments.Unended.append (Fragments.Unended.append ?_ (.text (by decide) (.name .nil)))
        (unended_rowNumber row)
      cases value with
      | function call => exact .text h .nil
      | placeholder p =>
        intro s hs
        cases List.mem_singleton.mp hs
      | _ => cases h
    · simp [body, Fragments.tokens_append, lexes_select.tokens_text, readWrite, write?]
  | select s | page p | update t set f | delete t f | truncate t r => cases h

theorem tokens_statementList (ss : List Statement) :
    (statementList ss).tokens d = ss.flatMap fun s => s.body.tokens d ++ [Token.sign ";"] := by
  have hblank : Lexes " " [] := by decide
  have hend : Lexes ";" [.sign ";"] := by decide
  have hone (s : Statement) : s.fragments.tokens d = s.body.tokens d ++ [Token.sign ";"] := by
    rw [Statement.fragments, Fragments.tokens_append, hend.tokens_text, Fragments.tokens_nil,
      List.append_nil]
  induction ss with
  | nil => rfl
  | cons s ss ih =>
    rw [List.flatMap_cons, ← ih, ← hone]
    cases ss with
    | nil => simp [statementList, separated, Fragments.tokens_nil]
    | cons t ts =>
      simp [statementList, separated, Fragments.tokens_append, hblank.tokens_text]

theorem readStatement_append {s : Statement} (hc : s.Clean) (h : s.Readable) (rest : List Token) :
    readStatement (s.body.tokens d ++ .sign ";" :: rest) = some (s.write?, rest) := by
  obtain ⟨tail, hunended, hread⟩ := Statement.readWrite_body (d := d) hc h rest
  have hskip := skipTo_append (semicolon_notMem_tokens (d := d) hunended) rest
  simp [readStatement, hread, hskip]

theorem readStatements_append {ss : List Statement} (hc : ∀ s ∈ ss, s.Clean)
    (h : ∀ s ∈ ss, s.Readable) {n : Nat} (hn : ss.length ≤ n) :
    readStatements n (ss.flatMap fun s => s.body.tokens d ++ [Token.sign ";"]) = some (writes ss) := by
  -- the readable statements end at their own semicolons, so each takes one step
  induction ss generalizing n with
  | nil => cases n <;> rfl
  | cons s ss ih =>
    obtain ⟨hs, hss⟩ := List.forall_mem_cons.mp h
    obtain ⟨hcs, hcss⟩ := List.forall_mem_cons.mp hc
    obtain ⟨k, rfl⟩ : ∃ k, n = k + 1 := ⟨n - 1, by rw [List.length_cons] at hn; omega⟩
    have hread := readStatement_append (d := d) hcs hs
      (ss.flatMap fun s => s.body.tokens d ++ [Token.sign ";"])
    have hrest := ih hcss hss (by simpa using hn)
    rw [List.flatMap_cons, List.append_assoc, List.singleton_append, readStatements]
    · rw [hread]
      change (readStatements k _).bind _ = _
      rw [hrest]
      cases hw : s.write? <;> simp [writes, hw]
    · simp

/-- **What statements write is read from their tokens.** -/
theorem readWrites_statementList {ss : List Statement} (hc : ∀ s ∈ ss, s.Clean)
    (h : ∀ s ∈ ss, s.Readable) : readWrites ((statementList ss).tokens d) = some (writes ss) := by
  -- every statement has a token, its semicolon
  have hlength : ∀ ss : List Statement,
      ss.length ≤ (ss.flatMap fun s => s.body.tokens d ++ [Token.sign ";"]).length := by
    intro ss
    induction ss with
    | nil => simp
    | cons s ss ih =>
      simp only [List.flatMap_cons, List.length_append, List.length_cons] at ih ⊢
      omega
  rw [readWrites, tokens_statementList]
  exact readStatements_append hc h (hlength ss)

end EntitySql.Sql
