import EntitySql.Filter.Reading
import EntitySql.Proofs.Predicate.ParameterNames

/-!
# Tokens of a printed filter

What a filter is printed of is cut into the tokens that were meant, whatever stands behind it
(**`IsToken`**). Signs are tokens by themselves. A word and a number go on as far as they can, so what
stands behind them has to break them off (`Breaks`): a blank, a bracket, a comma, or a point without a
digit. A text without quotes and backslashes ends at its closing quote.
-/

namespace EntitySql.Filter

/-! ### Words and values -/

/-- A name that a filter may have in it as one word. -/
def IsIdentifier (name : String) : Prop :=
  ∃ c cs, name.toList = c :: cs ∧ startsWord c = true ∧ ∀ d ∈ cs, continuesWord d = true

/-- A value that is one token when it is printed. -/
inductive IsLiteral : Value → Prop where
  | null : IsLiteral .null
  | bool (b : Bool) : IsLiteral (.bool b)
  | int (n : Int64) : IsLiteral (.int n)
  | text {s : String} (h : ∀ c ∈ s.toList, c ≠ '"' ∧ c ≠ '\\') : IsLiteral (.text s)

/-- Neither a word nor a number goes on with the text. -/
def Breaks : List Char → Prop
  | [] => True
  | c :: rest => continuesWord c = false ∧ (c = '.' → ∀ d ∈ rest.head?, d.isDigit = false)

theorem Breaks.of_ne_dot {c : Char} (h : continuesWord c = false) (hc : c ≠ '.')
    (rest : List Char) : Breaks (c :: rest) :=
  ⟨h, fun hdot => absurd hdot hc⟩

/-- The text is a token if `rest` stands behind it. -/
structure IsToken (cs : List Char) (t : Token) (rest : List Char) : Prop where
  starts : cs.head?.any isBlank = false
  nonempty : cs ≠ []
  lexed : lexToken (cs ++ rest) = (t, rest)
  proper : t ≠ .junk

/-! ### Signs -/

/-- A sign of one character. -/
inductive IsSign : Char → Token → Prop where
  | openGroup : IsSign '(' .openGroup
  | closeGroup : IsSign ')' .closeGroup
  | openList : IsSign '[' .openList
  | closeList : IsSign ']' .closeList
  | comma : IsSign ',' .comma
  | dot : IsSign '.' .dot

theorem IsSign.isToken {c : Char} {t : Token} (h : IsSign c t) (rest : List Char) :
    IsToken [c] t rest := by
  cases h <;> exact ⟨rfl, List.cons_ne_nil _ _, rfl, Token.noConfusion⟩

/-- The operators between operands, and the arrow of a lambda. -/
inductive IsOperator : List Char → Token → Prop where
  | conjoin : IsOperator ['&', '&'] .conjoin
  | disjoin : IsOperator ['|', '|'] .disjoin
  | fallback : IsOperator ['?', '?'] .fallback
  | arrow : IsOperator ['=', '>'] .arrow

theorem IsOperator.isToken {cs : List Char} {t : Token} (h : IsOperator cs t) (rest : List Char) :
    IsToken cs t rest := by
  cases h <;> exact ⟨rfl, List.cons_ne_nil _ _, rfl, Token.noConfusion⟩

/-- A negation is one unless an equals sign stands behind it. -/
theorem isToken_bang {rest : List Char} (h : rest.head? ≠ some '=') : IsToken ['!'] .bang rest := by
  refine ⟨rfl, List.cons_ne_nil _ _, ?_, Token.noConfusion⟩
  refine lexToken.eq_13 rest fun more hrest => h ?_
  rw [hrest]
  rfl

/-- The token of the sign of a comparison. -/
def comparisonToken : CompareOp → Token
  | .eq => .equal
  | .ne => .notEqual
  | .gt => .greater
  | .lt => .less
  | .ge => .greaterOrEqual
  | .le => .lessOrEqual

/-- The sign of a comparison is one if a blank stands behind it. -/
theorem isToken_comparison (op : CompareOp) (rest : List Char) :
    IsToken op.symbol.toList (comparisonToken op) (' ' :: rest) := by
  cases op <;> exact ⟨rfl, List.cons_ne_nil _ _, rfl, Token.noConfusion⟩

/-! ### Words -/

theorem continuesWord_of_isDigit {c : Char} (h : c.isDigit = true) : continuesWord c = true := by
  have hlow : c.toNat < 0x80 := toNat_lt_of_word (by simp [Char.isAlphanum, h])
  simp [continuesWord, Text.isLetterOrNumeral, Text.isNumeral, hlow, h]

/-- The characters that signs, texts and negative numbers start with. -/
def signs : List Char :=
  ['(', ')', '[', ']', ',', '.', '&', '|', '?', '=', '!', '>', '<', '"', '-']

/-- A token that starts with none of the signs is a number or a word. -/
theorem lexToken_of_notMem {c : Char} (h : c ∉ signs) (rest : List Char) :
    lexToken (c :: rest) =
      if c.isDigit then lexNumber false (c :: rest)
      else if startsWord c then
        (.word (String.ofList (c :: rest.takeWhile continuesWord)), rest.dropWhile continuesWord)
      else (.junk, []) := by
  apply lexToken.eq_20 <;>
    · intros
      subst_vars
      exact h (by decide)

theorem notMem_signs_of_startsWord {c : Char} (h : startsWord c = true) : c ∉ signs :=
  notMem_of_class (by decide) h

theorem notMem_signs_of_isDigit {c : Char} (h : c.isDigit = true) : c ∉ signs :=
  notMem_of_class (by decide) h

/-- No digit is a letter or an underscore. -/
theorem isDigit_of_startsWord {c : Char} (h : startsWord c = true) : c.isDigit = false := by
  by_contra hdigit
  have hdigit : c.isDigit = true := by simpa using hdigit
  have hlow : c.toNat < 0x80 := toNat_lt_of_word (by simp [Char.isAlphanum, hdigit])
  have hletter : (decide (c.val ≥ 65 ∧ c.val ≤ 90) || (c.val ≥ 97 && c.val ≤ 122) ||
      decide (c = '_')) = true := by
    rw [startsWord, Text.isLetter, if_pos hlow] at h
    exact h
  have hrange : (c.val ≥ 48 && c.val ≤ 57) = true := hdigit
  simp only [ge_iff_le, UInt32.le_iff_toNat_le, Bool.or_eq_true, Bool.and_eq_true,
    decide_eq_true_eq, UInt32.reduceToNat, Char.toNat_val] at hletter hrange
  rcases hletter with hletter | rfl
  · omega
  · exact absurd hrange (by decide)

/-- The blanks between tokens. -/
def blanks : List Char := [' ', '\t', '\r', '\n']

theorem isBlank_of_notMem {c : Char} (h : c ∉ blanks) : isBlank c = false := by
  simp only [blanks, List.mem_cons, List.not_mem_nil, or_false, not_or] at h
  simp [isBlank, h]

theorem isBlank_of_startsWord {c : Char} (h : startsWord c = true) : isBlank c = false :=
  isBlank_of_notMem (notMem_of_class (by decide) h)

theorem isBlank_of_isDigit {c : Char} (h : c.isDigit = true) : isBlank c = false :=
  isBlank_of_notMem (notMem_of_class (by decide) h)

theorem Breaks.word {rest : List Char} (h : Breaks rest) :
    ∀ c ∈ rest.head?, continuesWord c = false := by
  cases rest with
  | nil => exact fun c hc => by cases hc
  | cons d rest =>
    intro c hc
    cases hc
    exact h.1

theorem Breaks.digit {rest : List Char} (h : Breaks rest) :
    ∀ c ∈ rest.head?, c.isDigit = false := by
  intro c hc
  by_contra hdigit
  have hword := continuesWord_of_isDigit (by simpa using hdigit)
  rw [h.word c hc] at hword
  cases hword

/-- A name is a word. -/
theorem isToken_word {name : String} (h : IsIdentifier name) {rest : List Char} (hrest : Breaks rest) :
    IsToken name.toList (.word name) rest := by
  obtain ⟨c, cs, hname, hc, hcs⟩ := h
  obtain ⟨htake, hdrop⟩ := takeWhile_dropWhile_append hcs hrest.word
  refine ⟨?_, ?_, ?_, Token.noConfusion⟩
  · rw [hname]
    exact isBlank_of_startsWord hc
  · rw [hname]
    exact List.cons_ne_nil _ _
  · rw [hname, List.cons_append, lexToken_of_notMem (notMem_signs_of_startsWord hc),
      isDigit_of_startsWord hc, hc, htake, hdrop, ← hname, String.ofList_toList]
    rfl

/-- A point before a name belongs to nothing that stands before it. -/
theorem breaks_dot {name : String} (h : IsIdentifier name) (rest : List Char) :
    Breaks ('.' :: (name.toList ++ rest)) := by
  obtain ⟨c, cs, hname, hc, -⟩ := h
  refine ⟨by decide, fun _ d hd => ?_⟩
  rw [hname] at hd
  cases hd
  exact isDigit_of_startsWord hc

/-- A word by the look of its characters. -/
theorem IsIdentifier.of_all {name : String} {c : Char} {cs : List Char} (hname : name.toList = c :: cs)
    (hc : startsWord c = true) (hcs : cs.all continuesWord = true) : IsIdentifier name :=
  ⟨c, cs, hname, hc, List.all_eq_true.mp hcs⟩

/-- The name of the row. -/
theorem isIdentifier_x : IsIdentifier "x" := .of_all rfl (by decide) (by decide)

theorem isIdentifier_method (m : Method) : IsIdentifier m.name := by
  cases m <;> exact .of_all rfl (by decide) (by decide)

/-! ### Values -/

/-- The digits of a number without its sign. -/
theorem lexNumber_digits (negative : Bool) {ds : List Char} (hne : ds ≠ [])
    (hds : ∀ d ∈ ds, d.isDigit = true) {rest : List Char} (hrest : Breaks rest) :
    lexNumber negative (ds ++ rest) = (numberToken negative ds none, rest) := by
  obtain ⟨htake, hdrop⟩ := takeWhile_dropWhile_append hds hrest.digit
  unfold lexNumber
  simp only [htake, hdrop, List.isEmpty_eq_false_iff.mpr hne, Bool.false_eq_true, if_false]
  split
  · next more =>
    -- a point without a digit behind it is not part of the number
    have hmore : more.takeWhile Char.isDigit = [] := by
      cases more with
      | nil => rfl
      | cons d more => simp [hrest.2 rfl d rfl]
    rw [hmore]
    rfl
  · rfl

theorem digitsValue_toDigits (n : Nat) : digitsValue (Nat.toDigits 10 n) = n := foldl_toDigits n

/-- The number that an integer of 64 bits is printed as is read as the integer. -/
theorem numberToken_toInt (n : Int64) :
    numberToken (decide (n.toInt < 0)) (Nat.toDigits 10 n.toInt.natAbs) none = .integer n := by
  have hvalue : (if decide (n.toInt < 0) = true then -(n.toInt.natAbs : Int)
      else (n.toInt.natAbs : Int)) = n.toInt := by
    by_cases hneg : n.toInt < 0
    · rw [if_pos (by simpa using hneg)]
      omega
    · rw [if_neg (by simpa using hneg)]
      omega
  have hlow := n.le_toInt
  have hhigh := n.toInt_lt
  unfold numberToken
  simp only [digitsValue_toDigits, hvalue, Int64.ofInt_toInt]
  rw [if_pos ⟨hlow, hhigh⟩]

/-- An integer of 64 bits is a token. -/
theorem isToken_int (n : Int64) {rest : List Char} (hrest : Breaks rest) :
    IsToken (Value.display (.int n)).toList (.integer n) rest := by
  have hdigits : ∀ d ∈ Nat.toDigits 10 n.toInt.natAbs, d.isDigit = true :=
    fun _ hd => isDigit_of_mem_digits hd
  have hne : Nat.toDigits 10 n.toInt.natAbs ≠ [] := Nat.toDigits_ne_nil
  have hnumber := fun negative => lexNumber_digits negative hne hdigits hrest
  have htoken := numberToken_toInt n
  rw [Value.display, Value.intText, String.toList_ofList, Json.intChars]
  by_cases hneg : n.toInt < 0
  · rw [if_pos hneg]
    rw [decide_eq_true hneg] at htoken
    refine ⟨rfl, List.cons_ne_nil _ _, ?_, Token.noConfusion⟩
    · show lexNumber true (Nat.toDigits 10 n.toInt.natAbs ++ rest) = _
      rw [hnumber, htoken]
  · rw [if_neg hneg, List.nil_append]
    obtain ⟨d, ds, hcons⟩ := List.exists_cons_of_ne_nil hne
    have hd : d.isDigit = true := hdigits d (hcons ▸ List.mem_cons_self)
    rw [decide_eq_false hneg] at htoken
    refine ⟨?_, hne, ?_, Token.noConfusion⟩
    · rw [hcons]
      exact isBlank_of_isDigit hd
    · have hnumber := hnumber false
      rw [htoken, hcons, List.cons_append] at hnumber
      rw [hcons, List.cons_append, lexToken_of_notMem (notMem_signs_of_isDigit hd), if_pos hd,
        hnumber]

/-- The characters of a text up to its closing quote. -/
theorem lexText_quoted {s : List Char} (h : ∀ c ∈ s, c ≠ '"' ∧ c ≠ '\\') (rest : List Char) :
    lexText (s ++ '"' :: rest) = some (s, rest) := by
  induction s with
  | nil => rfl
  | cons c s ih =>
    obtain ⟨hquote, hescape⟩ := h c List.mem_cons_self
    have hs := ih fun d hd => h d (List.mem_cons_of_mem _ hd)
    rw [List.cons_append, lexText.eq_4 _ _ hquote fun _ _ hc _ => hescape hc, if_neg hescape, hs]
    rfl

theorem isToken_text {s : String} (h : ∀ c ∈ s.toList, c ≠ '"' ∧ c ≠ '\\') (rest : List Char) :
    IsToken (Value.display (.text s)).toList (.text s) rest := by
  have hchars : (Value.display (.text s)).toList = '"' :: (s.toList ++ ['"']) := by
    simp [Value.display, Value.quoted]
  rw [hchars]
  refine ⟨rfl, List.cons_ne_nil _ _, ?_, Token.noConfusion⟩
  · rw [List.cons_append, List.append_assoc, List.singleton_append, lexToken, lexText_quoted h]
    simp

/-- A value that is printed as a token is read as itself. -/
theorem isToken_literal {v : Value} (h : IsLiteral v) {rest : List Char} (hrest : Breaks rest) :
    ∃ t, IsToken v.display.toList t rest ∧ literal? t = some v := by
  cases h with
  | null => exact ⟨.word "null", isToken_word (.of_all rfl (by decide) (by decide)) hrest, rfl⟩
  | bool b =>
    cases b with
    | true => exact ⟨.word "true", isToken_word (.of_all rfl (by decide) (by decide)) hrest, rfl⟩
    | false => exact ⟨.word "false", isToken_word (.of_all rfl (by decide) (by decide)) hrest, rfl⟩
  | int n => exact ⟨.integer n, isToken_int n hrest, rfl⟩
  | text h => exact ⟨_, isToken_text h rest, rfl⟩

end EntitySql.Filter
