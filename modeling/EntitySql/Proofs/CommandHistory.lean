import EntitySql.Proofs.Command
import Mathlib.Data.List.DropRight

/-!
# What a command remembers

Parameters are set in a command one at a time or several at once, and all of them are dropped when it is
cleared. What the command has after that can be told from the parameters that were set since it was
last cleared (`Command.settings`): one for every name that was set, whatever the case of its letters, at
the place and in the spelling of the first setting, with the value and type of the last one
(`Command.Remembers`).

Setting one parameter keeps this up (`Command.Remembers.set`), so every run does. The main statement is
**`Command.parameters_after`**.
-/

namespace EntitySql

open Text

/-! ### The first of each kind -/

section EraseDups

variable {α : Type} {r : α → α → Bool}

theorem eraseDupsBy_loop_concat (xs kept : List α) (x : α) :
    List.eraseDupsBy.loop r (xs ++ [x]) kept =
      if (List.eraseDupsBy.loop r xs kept).any (r x) then List.eraseDupsBy.loop r xs kept
      else List.eraseDupsBy.loop r xs kept ++ [x] := by
  induction xs generalizing kept with
  | nil => cases h : kept.any (r x) <;> simp [List.eraseDupsBy.loop, h]
  | cons y xs ih =>
    rw [List.cons_append, List.eraseDupsBy.loop, List.eraseDupsBy.loop]
    split <;> exact ih _

/-- One more element stays unless there is one of its kind. -/
theorem eraseDupsBy_concat (xs : List α) (x : α) :
    (xs ++ [x]).eraseDupsBy r =
      if (xs.eraseDupsBy r).any (r x) then xs.eraseDupsBy r else xs.eraseDupsBy r ++ [x] :=
  eraseDupsBy_loop_concat xs [] x

end EraseDups

namespace Command

/-! ### Calls -/

/-- What a command is asked to do. -/
inductive Call where
  | set (p : BoundParameter)
  | extend (ps : List BoundParameter)
  | clear

/-- Whether the call drops the parameters. -/
def Call.isClear : Call → Bool
  | .clear => true
  | _ => false

/-- The parameters that a call sets, in their order. -/
def Call.settings : Call → List BoundParameter
  | .set p => [p]
  | .extend ps => ps
  | .clear => []

/-- The command after a call. -/
def perform (c : Command) : Call → Command
  | .set p => c.set p
  | .extend ps => c.extend ps
  | .clear => c.clear

/-- The command of a text after calls, one after the other. -/
def after (text : String) (calls : List Call) : Command := calls.foldl perform (make text)

/-- The parameters that were set since the last call that dropped them, in their order. -/
def settings (calls : List Call) : List BoundParameter :=
  (calls.rtakeWhile fun call => !call.isClear).flatMap Call.settings

/-- The last setting of a name, whatever the case of its letters. -/
def lastSetting (name : String) (ps : List BoundParameter) : Option BoundParameter :=
  (ps.filter (isNamed name)).getLast?

/-- The names that were set, each at the place and in the spelling of its first setting. -/
def firstNames (ps : List BoundParameter) : List String :=
  (ps.map BoundParameter.name).eraseDupsBy equalIgnoringCase

theorem settings_concat (calls : List Call) (call : Call) :
    settings (calls ++ [call]) =
      if call.isClear then [] else settings calls ++ call.settings := by
  unfold settings
  cases h : call.isClear with
  | true => rw [List.rtakeWhile_concat_neg _ _ _ (by simp [h]), if_pos rfl, List.flatMap_nil]
  | false =>
    rw [List.rtakeWhile_concat_pos _ _ _ (by simp [h]), List.flatMap_append, List.flatMap_singleton]
    rfl

theorem lastSetting_concat (name : String) (ps : List BoundParameter) (p : BoundParameter) :
    lastSetting name (ps ++ [p]) =
      if equalIgnoringCase p.name name then some p else lastSetting name ps := by
  unfold lastSetting
  cases h : equalIgnoringCase p.name name <;> simp [List.filter_append, isNamed, h]

theorem firstNames_concat (ps : List BoundParameter) (p : BoundParameter) :
    firstNames (ps ++ [p]) =
      if (firstNames ps).any (equalIgnoringCase p.name) then firstNames ps
      else firstNames ps ++ [p.name] := by
  rw [firstNames, List.map_append, List.map_singleton, eraseDupsBy_concat]
  rfl

/-- Calls that drop nothing add their settings. -/
theorem settings_append {calls more : List Call} (h : ∀ call ∈ more, call.isClear = false) :
    settings (calls ++ more) = settings calls ++ more.flatMap Call.settings := by
  induction more using List.reverseRecOn with
  | nil => rw [List.append_nil, List.flatMap_nil, List.append_nil]
  | append_singleton more call ih =>
    obtain ⟨hmore, hcall⟩ := List.forall_mem_append.mp h
    rw [← List.append_assoc, settings_concat, hcall call List.mem_cons_self, ih hmore,
      List.flatMap_append, List.flatMap_singleton, ← List.append_assoc]
    rfl

/-- Further settings leave the names that there are where they are. -/
theorem firstNames_prefix (ps qs : List BoundParameter) : firstNames ps <+: firstNames (ps ++ qs) := by
  induction qs using List.reverseRecOn with
  | nil => exact ⟨[], by rw [List.append_nil, List.append_nil]⟩
  | append_singleton qs q ih =>
    rw [← List.append_assoc, firstNames_concat]
    split
    · exact ih
    · exact ih.trans (List.prefix_append _ _)

/-! ### What is remembered -/

/-- The names after a parameter is set: a name that is there keeps its place and its spelling, a new one
goes to the end. -/
theorem map_name_setIn (p : BoundParameter) (ps : List BoundParameter) :
    (setIn p ps).map BoundParameter.name =
      if (ps.map BoundParameter.name).any (equalIgnoringCase p.name) then
        ps.map BoundParameter.name
      else ps.map BoundParameter.name ++ [p.name] := by
  induction ps with
  | nil => rfl
  | cons q rest ih =>
    rw [setIn, isNamed, equalIgnoringCase_comm q.name]
    cases h : equalIgnoringCase p.name q.name with
    | true => simp [h]
    | false =>
      simp only [h, Bool.false_eq_true, if_false, List.map_cons, List.any_cons, Bool.false_or, ih]
      split <;> rfl

/-- The command has these settings and nothing else. -/
structure Remembers (ps : List BoundParameter) (c : Command) : Prop where
  apart : Apart c.parameters
  names : c.parameters.map BoundParameter.name = firstNames ps
  content : ∀ name, (c.get? name).map BoundParameter.content =
    (lastSetting name ps).map BoundParameter.content

variable {ps : List BoundParameter} {c : Command}

theorem remembers_nil (text : String) : Remembers [] ⟨text, []⟩ :=
  ⟨.nil, rfl, fun _ => rfl⟩

theorem Remembers.set (h : Remembers ps c) (p : BoundParameter) :
    Remembers (ps ++ [p]) (c.set p) where
  apart := apart_setIn h.apart
  names := by
    rw [firstNames_concat, ← h.names]
    exact map_name_setIn p c.parameters
  content name := by
    rw [content_get?_set, lastSetting_concat, h.content]
    split <;> rfl

theorem Remembers.extend (h : Remembers ps c) (qs : List BoundParameter) :
    Remembers (ps ++ qs) (c.extend qs) := by
  induction qs generalizing ps c with
  | nil => rwa [List.append_nil]
  | cons q qs ih =>
    rw [← List.singleton_append, ← List.append_assoc]
    exact ih (h.set q)

/-- **A command has the settings since it was last cleared, and one call more keeps it so.** -/
theorem remembers_perform {calls : List Call} (h : Remembers (settings calls) c) (call : Call) :
    Remembers (settings (calls ++ [call])) (c.perform call) := by
  rw [settings_concat]
  cases call with
  | set p => exact h.set p
  | extend qs => exact h.extend qs
  | clear => exact remembers_nil c.text

theorem remembers_after (text : String) (calls : List Call) :
    Remembers (settings calls) (after text calls) := by
  induction calls using List.reverseRecOn with
  | nil => exact remembers_nil text
  | append_singleton calls call ih =>
    rw [after, List.foldl_concat]
    exact remembers_perform ih call

/-! ### The text -/

theorem text_perform (c : Command) (call : Call) : (c.perform call).text = c.text := by
  cases call with
  | set p => rfl
  | extend ps => exact text_extend c ps
  | clear => rfl

theorem text_after (text : String) (calls : List Call) : (after text calls).text = text := by
  induction calls using List.reverseRecOn with
  | nil => rfl
  | append_singleton calls call ih =>
    rw [after, List.foldl_concat, text_perform]
    exact ih

/-- **A command remembers the first name and the last value.** After any calls no two parameters have one
name, whatever the case of the letters from A to Z. A name has the value and the type of its last setting
since the command was last cleared, and none if there was none. The names stand in the order in which each
of them was first set since then, in the spelling that it had there, and stay where they are until the
command is cleared. The text is always the same. -/
theorem parameters_after (text : String) (calls : List Call) :
    let c := after text calls
    Apart c.parameters ∧
    (∀ name, c.value? name = (lastSetting name (settings calls)).map BoundParameter.value ∧
      (c.get? name).map BoundParameter.type =
        (lastSetting name (settings calls)).map BoundParameter.type) ∧
    c.parameters.map BoundParameter.name = firstNames (settings calls) ∧
    (∀ more, (∀ call ∈ more, call.isClear = false) →
      c.parameters.map BoundParameter.name <+:
        (after text (calls ++ more)).parameters.map BoundParameter.name) ∧
    c.text = text := by
  intro c
  have h : Remembers (settings calls) c := remembers_after text calls
  refine ⟨h.apart, fun name => ⟨?_, ?_⟩, h.names, fun more hmore => ?_, text_after text calls⟩
  · have hvalue := congrArg (Option.map Prod.fst) (h.content name)
    rwa [Option.map_map, Option.map_map] at hvalue
  · have htype := congrArg (Option.map Prod.snd) (h.content name)
    rwa [Option.map_map, Option.map_map] at htype
  · rw [h.names, (remembers_after text (calls ++ more)).names, settings_append hmore]
    exact firstNames_prefix _ _

-- set again in another case a name keeps its place and spelling, and once cleared it starts anew
example :
    ((after "SELECT 1;" [.set ⟨"Name", .null, none⟩, .set ⟨"Age", .bool true, none⟩,
      .set ⟨"NAME", .bool false, some .bool⟩]).parameters.map BoundParameter.name = ["Name", "Age"]) ∧
    ((after "SELECT 1;" [.set ⟨"Name", .null, none⟩, .clear,
      .extend [⟨"Age", .null, none⟩, ⟨"NAME", .null, none⟩]]).parameters.map BoundParameter.name =
        ["Age", "NAME"]) := by
  decide

end Command

end EntitySql
