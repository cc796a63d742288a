import EntitySql.Proofs.Plan.StoredForm

/-!
# Returned keys

After a batch was written the database gives back the keys of the rows, each with an order value, in any
order. `Plan.applyKeys` puts one key after the other into the row that its order value counts to, from
zero, and stops at the first one that it cannot put. If no two keys have the same order value, the rows
in which all of them end up are told by which keys there are, not by which came first (`Plan.Placed`,
`Plan.applyKeysWith_eq_iff`).

**`Engine.keys_by_order`**: if the keys can be put into rows in one order, they can in every other, with
the same rows; the row that an order value counts to has the key that came with it, converted by the
handler and to the declared type, and nothing else has changed.
-/

namespace EntitySql

/-! ### One key -/

/-- A key as a row keeps it: what the handler makes of it, converted to the declared type. -/
def KeySetter.converted (k : KeySetter) (v : Value) : Result Value :=
  match k.handler with
  | some h => do
    let v ← h.fromColumn v k.column
    v.toProperty k.property.type
  | none => v.toProperty k.property.type

/-- The row with a key that was converted. -/
def KeySetter.put (k : KeySetter) (map : EntityMap) (row : Row) (w : Value) : Row :=
  List.set row (map.index k.property) w

/-- A key is put into any row or into none, since its conversion does not depend on the row. -/
theorem KeySetter.apply_eq (k : KeySetter) (map : EntityMap) (row : Row) (v : Value) :
    k.apply map row v = (k.converted v).map (k.put map row) := by
  unfold apply converted
  cases k.handler with
  | none => rfl
  | some h =>
    dsimp only [bind, Except.bind]
    cases h.fromColumn v k.column <;> rfl

namespace EntityMap

variable {map : EntityMap} {p q : Property}

theorem index_lt (hp : p ∈ map.properties) : map.index p < map.properties.length :=
  List.findIdx_lt_length_of_exists ⟨p, hp, decide_eq_true rfl⟩

/-- A property is in the place that it is kept in. -/
theorem getElem?_index (hp : p ∈ map.properties) :
    map.properties[map.index p]? = some p := by
  have hfound : map.properties.get ⟨map.index p, index_lt hp⟩ = p :=
    of_decide_eq_true (List.findIdx_getElem (w := index_lt hp))
  rw [List.getElem?_eq_getElem (index_lt hp)]
  exact congrArg some hfound

/-- Properties are kept in places of their own. -/
theorem index_inj (hp : p ∈ map.properties) (hq : q ∈ map.properties)
    (h : map.index p = map.index q) : p = q := by
  have hfound := getElem?_index hp
  rw [h, getElem?_index hq] at hfound
  exact (Option.some.inj hfound).symm

end EntityMap

namespace KeySetter

variable {k : KeySetter} {map : EntityMap} {row : Row} {w : Value}

theorem get_put (hk : k.property ∈ map.properties) (hrow : row.length = map.properties.length) :
    map.get (k.put map row w) k.property = w := by
  have hlt : map.index k.property < row.length := hrow ▸ EntityMap.index_lt hk
  rw [EntityMap.get, put, List.getD_eq_getElem?_getD, List.getElem?_set_self hlt, Option.getD_some]

/-- The other properties of the row stay as they are. -/
theorem get_put_of_ne (hk : k.property ∈ map.properties) {q : Property} (hq : q ∈ map.properties)
    (hne : q ≠ k.property) : map.get (k.put map row w) q = map.get row q := by
  have hindex : map.index k.property ≠ map.index q := fun h =>
    hne (EntityMap.index_inj hk hq h).symm
  rw [EntityMap.get, EntityMap.get, put, List.getD_eq_getElem?_getD, List.getD_eq_getElem?_getD,
    List.getElem?_set_ne hindex]

end KeySetter

/-! ### All keys -/

namespace Plan

/-- Keys with their order values, as the database gives them back. -/
def withOrders (returned : List (Value × Int64)) : List (Value × Value) :=
  returned.map fun (v, n) => (v, .int n)

theorem orderIndex?_eq_some_iff {rows : List Row} {n : Int64} {i : Nat} :
    orderIndex? rows (.int n) = some i ↔ n.toInt = i ∧ i < rows.length := by
  show (if 0 ≤ n.toInt ∧ n.toInt.toNat < rows.length then some n.toInt.toNat else none) = some i ↔ _
  rw [Option.ite_none_right_eq_some, Option.some.injEq]
  omega

/-- The rows with every returned key in the row that its order value counts to. Nothing here depends on
the order in which the keys were returned. -/
structure Placed (map : EntityMap) (k : KeySetter) (rows : List Row)
    (returned : List (Value × Int64)) (rows' : List Row) : Prop where
  length : rows'.length = rows.length
  written : ∀ v n, (v, n) ∈ returned → ∃ (i : Nat) (row : Row) (w : Value), n.toInt = i ∧
    rows[i]? = some row ∧ k.converted v = .ok w ∧ rows'[i]? = some (k.put map row w)
  kept : ∀ i : Nat, (∀ v n, (v, n) ∈ returned → n.toInt ≠ i) → rows'[i]? = rows[i]?

variable {map : EntityMap} {k : KeySetter} {rows rows' : List Row}
variable {returned other : List (Value × Int64)}

theorem placed_nil_iff : Placed map k rows [] rows' ↔ rows' = rows := by
  constructor
  · intro h
    exact List.ext_getElem? fun i => h.kept i fun v n hmem => (List.not_mem_nil hmem).elim
  · rintro rfl
    exact ⟨rfl, fun v n hmem => (List.not_mem_nil hmem).elim, fun i _ => rfl⟩

/-- The keys are in the same rows whichever of them came first. -/
theorem Placed.perm (h : Placed map k rows returned rows') (hperm : other.Perm returned) :
    Placed map k rows other rows' where
  length := h.length
  written v n hmem := h.written v n (hperm.mem_iff.mp hmem)
  kept i hi := h.kept i fun v n hmem => hi v n (hperm.mem_iff.mpr hmem)

/-- One key is put, then the others: no other counts to the row of this one. -/
theorem placed_cons_iff {v : Value} {n : Int64} (hn : n ∉ returned.map Prod.snd) :
    Placed map k rows ((v, n) :: returned) rows' ↔
      ∃ (i : Nat) (row : Row) (w : Value), n.toInt = i ∧ rows[i]? = some row ∧
        k.converted v = .ok w ∧ Placed map k (List.set rows i (k.put map row w)) returned rows' := by
  -- the row of this key is not that of another
  have hapart : ∀ {i : Nat}, n.toInt = i → ∀ u m, (u, m) ∈ returned → m.toInt ≠ i := by
    intro i hi u m hmem hm
    obtain rfl : m = n := Int64.toInt_inj.mp (hm.trans hi.symm)
    exact hn (List.mem_map_of_mem hmem)
  constructor
  · intro h
    obtain ⟨i, row, w, hi, hrow, hw, hput⟩ := h.written v n List.mem_cons_self
    have hlt : i < rows.length := (List.getElem?_eq_some_iff.mp hrow).1
    refine ⟨i, row, w, hi, hrow, hw, ?_, fun u m hmem => ?_, fun j hj => ?_⟩
    · rw [List.length_set, h.length]
    · obtain ⟨j, row', w', hj, hrow', hw', hput'⟩ := h.written u m (List.mem_cons_of_mem _ hmem)
      have hne : i ≠ j := fun heq => hapart hi u m hmem (heq ▸ hj)
      exact ⟨j, row', w', hj, by rw [List.getElem?_set_ne hne, hrow'], hw', hput'⟩
    · by_cases heq : i = j
      · rw [← heq, hput, List.getElem?_set_self hlt]
      · rw [List.getElem?_set_ne heq]
        refine h.kept j fun u m hmem hm => ?_
        rcases List.mem_cons.mp hmem with hhead | hmem
        · obtain ⟨rfl, rfl⟩ := Prod.mk.inj hhead
          exact heq (Int.ofNat_inj.mp (hi.symm.trans hm))
        · exact hj u m hmem hm
  · rintro ⟨i, row, w, hi, hrow, hw, h⟩
    have hlt : i < rows.length := (List.getElem?_eq_some_iff.mp hrow).1
    refine ⟨by rw [h.length, List.length_set], fun u m hmem => ?_, fun j hj => ?_⟩
    · rcases List.mem_cons.mp hmem with hhead | hmem
      · obtain ⟨rfl, rfl⟩ := Prod.mk.inj hhead
        refine ⟨i, row, w, hi, hrow, hw, ?_⟩
        rw [h.kept i (hapart hi), List.getElem?_set_self hlt]
      · obtain ⟨j, row', w', hj, hrow', hw', hput⟩ := h.written u m hmem
        have hne : i ≠ j := fun heq => hapart hi u m hmem (heq ▸ hj)
        rw [List.getElem?_set_ne hne] at hrow'
        exact ⟨j, row', w', hj, hrow', hw', hput⟩
    · have hne : i ≠ j := fun heq => hj v n List.mem_cons_self (heq ▸ hi)
      rw [h.kept j fun u m hmem => hj u m (List.mem_cons_of_mem _ hmem), List.getElem?_set_ne hne]

/-- What one step does: the row that the order value counts to is written, unless there is none or the
key cannot be converted. -/
theorem applyKeysWith_cons_eq_iff {p : Plan} {v : Value} {n : Int64} :
    p.applyKeysWith k rows (withOrders ((v, n) :: returned)) = (rows', none) ↔
      ∃ (i : Nat) (row : Row) (w : Value), n.toInt = i ∧ rows[i]? = some row ∧
        k.converted v = .ok w ∧
        p.applyKeysWith k (List.set rows i (k.put p.map row w)) (withOrders returned) =
          (rows', none) := by
  rw [withOrders, List.map_cons, ← withOrders, applyKeysWith]
  constructor
  · intro h
    split at h
    · cases h
    · next i hi =>
      obtain ⟨hn, hlt⟩ := orderIndex?_eq_some_iff.mp hi
      rw [List.getD_eq_getElem?_getD, List.getElem?_eq_getElem hlt, Option.getD_some,
        KeySetter.apply_eq] at h
      cases hw : k.converted v with
      | error e =>
        rw [hw] at h
        cases h
      | ok w =>
        rw [hw] at h
        exact ⟨i, rows[i], w, hn, List.getElem?_eq_getElem hlt, rfl, h⟩
  · rintro ⟨i, row, w, hn, hrow, hw, h⟩
    obtain ⟨hlt, rfl⟩ := List.getElem?_eq_some_iff.mp hrow
    rw [orderIndex?_eq_some_iff.mpr ⟨hn, hlt⟩]
    dsimp only
    rw [List.getD_eq_getElem?_getD, List.getElem?_eq_getElem hlt, Option.getD_some, KeySetter.apply_eq, hw]
    exact h

/-- **Keys are put where their order values say.** -/
theorem applyKeysWith_eq_iff {p : Plan} (hdistinct : (returned.map Prod.snd).Nodup) :
    p.applyKeysWith k rows (withOrders returned) = (rows', none) ↔
      Placed p.map k rows returned rows' := by
  induction returned generalizing rows with
  | nil =>
    rw [placed_nil_iff]
    exact ⟨fun h => (Prod.mk.inj h).1.symm, fun h => h ▸ rfl⟩
  | cons key rest ih =>
    obtain ⟨v, n⟩ := key
    obtain ⟨hn, hrest⟩ := List.nodup_cons.mp hdistinct
    rw [applyKeysWith_cons_eq_iff, placed_cons_iff hn]
    refine exists_congr fun i => exists_congr fun row => exists_congr fun w => ?_
    rw [ih hrest]

end Plan

/-! ### Any engine -/

/-- The setter of a key writes the property of the key column, which can be written. -/
theorem KeySetter.make_eq_ok {map : EntityMap} {handlers : Handlers} {c : Column} {k : KeySetter}
    (h : KeySetter.make map handlers c = .ok k) :
    k.column = c ∧ map.propertyForColumn? c.name = some k.property ∧ k.property.readOnly = false ∧
      k.handler = handlers.get? map.entity k.property.name := by
  unfold make at h
  split at h
  · next p hp =>
    split at h
    · cases h
    · next hwrite =>
      obtain rfl := Except.ok.inj h
      exact ⟨rfl, hp, by simpa using hwrite, rfl⟩
  · cases h

/-- The key that a plan puts back is that of the table. -/
theorem Plan.keySetter_of_make {options : Options} {handlers : Handlers} {map : EntityMap}
    {r : PlanRequest} {columns : List Column} {serial : Nat} {p : Plan} {k : KeySetter}
    (h : Plan.make options handlers map r columns serial = .ok p) (hk : p.keySetter = some k) :
    KeySetter.make map handlers k.column = .ok k := by
  obtain ⟨fields, -, h⟩ := bind_eq_ok_iff.mp h
  obtain ⟨text, -, h⟩ := bind_eq_ok_iff.mp h
  obtain ⟨inputs, -, h⟩ := bind_eq_ok_iff.mp h
  obtain ⟨binders, -, h⟩ := bind_eq_ok_iff.mp h
  split at h
  · next key hkey =>
    split at h
    · obtain ⟨setter, hsetter, h⟩ := bind_eq_ok_iff.mp h
      obtain ⟨k', hmake, rfl⟩ := map_eq_ok_iff.mp hsetter
      obtain rfl := Except.ok.inj h
      obtain rfl := Option.some.inj hk
      rw [(KeySetter.make_eq_ok hmake).1]
      exact hmake
    · obtain rfl := Except.ok.inj h
      cases hk
  · obtain rfl := Except.ok.inj h
    cases hk

namespace Sample

/-- Accounts of Ada and Grace that have no keys yet. -/
def newAccounts : List Row := [[.int 0, .text "Ada"], [.int 0, .text "Grace"]]

/-- An insertion of two rows. -/
def insertionOfTwo : PlanRequest := { insertion with operation := .insertAll 2 }

end Sample

namespace Engine

variable {P : List Column → Prop} {e e' : Engine} {source : SchemaSource} {map : EntityMap}
variable {r : PlanRequest} {p : Plan} {k : KeySetter}

/-- The setter of a plan is made with the handlers of the engine, for the entity of the plan. -/
theorem keySetter_of_plan (he : Reachable P e) (hs : source.Gives P)
    (hp : e.plan source map r = (.ok p, e')) (hk : p.keySetter = some k) :
    p.map = map ∧ KeySetter.make map e.handlers k.column = .ok k := by
  obtain ⟨map', r', columns, serial, hkey, -, hmade⟩ :=
    (plan_spec (inv_of_reachable he) hs hp).2 p rfl
  obtain rfl : map' = map := congrArg PlanKey.map hkey
  obtain ⟨fields, hparts⟩ := Plan.make_spec hmade
  exact ⟨hparts.map_eq, Plan.keySetter_of_make hmade hk⟩

/-- **Returned keys follow their order values.** A plan of any engine puts keys into the property of the
key column, converted by its handler. If it can put keys with different order values into rows, it can put
them in every order, and the rows are the same: the row that an order value counts to has the converted
key and its other properties as before, and rows that no order value counts to are as before. -/
theorem keys_by_order (he : Reachable P e) (hs : source.Gives P)
    (hp : e.plan source map r = (.ok p, e')) (hk : p.keySetter = some k) {rows rows' : List Row}
    (hrows : ∀ row ∈ rows, row.length = map.properties.length) {returned : List (Value × Int64)}
    (hdistinct : (returned.map Prod.snd).Nodup)
    (happlied : p.applyKeys rows (Plan.withOrders returned) = (rows', none)) :
    (map.propertyForColumn? k.column.name = some k.property ∧
      k.handler = e.handlers.get? map.entity k.property.name) ∧
    (∀ other : List (Value × Int64), other.Perm returned →
      p.applyKeys rows (Plan.withOrders other) = (rows', none)) ∧
    rows'.length = rows.length ∧
    (∀ v n, (v, n) ∈ returned → ∃ (i : Nat) (row row' : Row), n.toInt = i ∧
      rows[i]? = some row ∧ rows'[i]? = some row' ∧
        k.converted v = .ok (map.get row' k.property) ∧
          ∀ q ∈ map.properties, q ≠ k.property → map.get row' q = map.get row q) ∧
    ∀ i : Nat, (∀ v n, (v, n) ∈ returned → n.toInt ≠ i) → rows'[i]? = rows[i]? := by
  obtain ⟨rfl, hmake⟩ := keySetter_of_plan he hs hp hk
  obtain ⟨-, hfound, -, hhandler⟩ := KeySetter.make_eq_ok hmake
  have hmem : k.property ∈ p.map.properties := List.mem_of_find?_eq_some hfound
  simp only [Plan.applyKeys, hk] at happlied ⊢
  have hplaced := (Plan.applyKeysWith_eq_iff hdistinct).mp happlied
  refine ⟨⟨hfound, hhandler⟩, fun other hperm => ?_, hplaced.length, fun v n hv => ?_, hplaced.kept⟩
  · have hother : (other.map Prod.snd).Nodup := (hperm.map Prod.snd).nodup_iff.mpr hdistinct
    exact (Plan.applyKeysWith_eq_iff hother).mpr (hplaced.perm hperm)
  · obtain ⟨i, row, w, hi, hrow, hw, hput⟩ := hplaced.written v n hv
    refine ⟨i, row, k.put p.map row w, hi, hrow, hput, ?_, fun q hq hne => ?_⟩
    · rw [KeySetter.get_put hmem (hrows row (List.mem_of_getElem? hrow)), hw]
    · exact KeySetter.get_put_of_ne hmem hq hne

/-- The key of the second account comes first. -/
theorem keys_by_order_two :
    ∃ p e', (make .standard).plan Sample.accounts Sample.account Sample.insertionOfTwo =
        (.ok p, e') ∧
      p.applyKeys Sample.newAccounts (Plan.withOrders [(.int 11, 1), (.int 10, 0)]) =
        ([[.int 10, .text "Ada"], [.int 11, .text "Grace"]], none) ∧
      p.applyKeys Sample.newAccounts (Plan.withOrders [(.int 10, 0), (.int 11, 1)]) =
        ([[.int 10, .text "Ada"], [.int 11, .text "Grace"]], none) := by
  obtain ⟨p, e', k, hp, hk, happlied⟩ : ∃ p e' k,
      (make .standard).plan Sample.accounts Sample.account Sample.insertionOfTwo = (.ok p, e') ∧
      p.keySetter = some k ∧
      p.applyKeys Sample.newAccounts (Plan.withOrders [(.int 11, 1), (.int 10, 0)]) =
        ([[.int 10, .text "Ada"], [.int 11, .text "Grace"]], none) :=
    ⟨_, _, _, rfl, rfl, rfl⟩
  have hall : Sample.accounts.Gives fun _ => True := fun _ _ _ => trivial
  have hrows : ∀ row ∈ Sample.newAccounts, row.length = Sample.account.properties.length := by
    decide
  have hdistinct : ([((.int 11 : Value), (1 : Int64)), (.int 10, 0)].map Prod.snd).Nodup := by
    decide
  have hkeys := keys_by_order (.make .standard) hall hp hk hrows hdistinct happlied
  exact ⟨p, e', hp, happlied, hkeys.2.1 _ (.swap ..)⟩

end Engine

end EntitySql
