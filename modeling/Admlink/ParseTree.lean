import Admlink.ParseString

/-!
# What the JSON parser returns

Every tree `cJSON_Parse` returns holds a string exactly in its items of type
string, and names exactly in the members of objects (`WellTyped`). `CJson.value`
is what a tree stands for; numbers are not told apart, as nothing in the agent
looks at one. On a well-typed tree looking up an item is looking up a member of
the value.
-/

namespace Admlink

open Program

/-! ## Values -/

/-- A JSON value; the members of an object in their order, duplicates kept. -/
inductive Json
  | null
  | bool (b : Bool)
  | number
  | string (s : Bytes)
  | array (elements : List Json)
  | object (members : List (Bytes × Json))

namespace Json

/-- The first member of this name, in any case; only an object has one. -/
def get (name : Bytes) : Json → Option Json
  | .object ms => (ms.find? fun m => m.1.map tolower = name.map tolower).map (·.2)
  | _ => none

/-- The value at `state.desired.rc_id`. -/
def rcId (v : Json) : Option Json := do
  let state ← v.get (bytes "state")
  let desired ← state.get (bytes "desired")
  desired.get (bytes "rc_id")

def isString : Json → Bool
  | .string _ => true
  | _ => false

end Json

namespace CJson

mutual

/-- The value a tree stands for. -/
def value : CJson → Json
  | item .jnull _ _ _ => .null
  | item .jfalse _ _ _ => .bool false
  | item .jtrue _ _ _ => .bool true
  | item .number _ _ _ => .number
  | item .string v _ _ => .string ((v.map (·.str)).getD [])
  | item .array _ _ c => .array (values c)
  | item .object _ _ c => .object (members c)

def values : List CJson → List Json
  | [] => []
  | c :: cs => c.value :: values cs

def members : List CJson → List (Bytes × Json)
  | [] => []
  | c :: cs => ((c.string.map (·.str)).getD [], c.value) :: members cs

end

@[simp] theorem value_withString (s : CBuf) (i : CJson) : (i.withString s).value = i.value := by
  cases i with
  | item t v _ c => cases t <;> simp [withString, value]

theorem isString_value (i : CJson) : i.value.isString = true ↔ i.type = .string := by
  cases i with
  | item t v s c => cases t <;> simp [value, type, Json.isString]

/-- Items of type string, and no others, hold a string, in a block with room
for its terminator; the items below an object, and no others, have a name. -/
inductive WellTyped : CJson → Prop
  | item {t : CJsonType} {v s : Option CBuf} {c : List CJson} :
      (v.isSome = true ↔ t = .string) → (∀ b, v = some b → b.str.length < b.size) →
      (∀ i ∈ c, i.string.isSome = true ↔ t = .object) →
      (∀ i ∈ c, WellTyped i) → WellTyped (item t v s c)

namespace WellTyped

variable {i : CJson}

theorem valuestring (h : WellTyped i) : i.valuestring.isSome = true ↔ i.type = .string := by
  cases h with
  | item h _ _ _ => exact h

theorem room (h : WellTyped i) {b : CBuf} (hb : i.valuestring = some b) :
    b.str.length < b.size := by
  cases h with
  | item _ h _ _ => exact h b hb

theorem child (h : WellTyped i) {j : CJson} (hj : j ∈ i.child) : WellTyped j := by
  cases h with
  | item _ _ _ h => exact h j hj

theorem withString (h : WellTyped i) (s : CBuf) : WellTyped (i.withString s) := by
  cases h with
  | item ht hr hn hc => exact .item ht hr hn hc

theorem bare {t : CJsonType} (ht : t ≠ .string) : WellTyped (.bare t) :=
  .item (by simp [ht]) (by simp) (by simp) (by simp)

end WellTyped

end CJson

open CJson

/-! ## Inversion of the parser -/

/-- What `parse_value` returns is of one of four kinds. -/
inductive ValueParsed (fuel : Nat) (value : Bytes) : CJson → Bytes → Prop
  | bare {t : CJsonType} {ptr : Bytes} : t ≠ .string → ValueParsed fuel value (.bare t) ptr
  | string {s : CBuf} {ptr : Bytes} : parseString value = .ok (some (s, ptr)) →
      ValueParsed fuel value (.item .string (some s) none []) ptr
  | array {start : Bytes} {items : List CJson} {ptr : Bytes} :
      parseElements fuel start = .ok (some (items, ptr)) →
      ValueParsed fuel value (.item .array none none items) ptr
  | object {start : Bytes} {items : List CJson} {ptr : Bytes} :
      parseMembers fuel start = .ok (some (items, ptr)) →
      ValueParsed fuel value (.item .object none none items) ptr

theorem parseValue_some {fuel : Nat} {value ptr : Bytes} {i : CJson}
    (h : parseValue (fuel + 1) value = .ok (some (i, ptr))) : ValueParsed fuel value i ptr := by
  rw [parseValue] at h
  -- `null`, `false`, `true`
  obtain ⟨b, -, h⟩ := except_bind_ok h
  split at h
  · cases h
    exact .bare (by decide)
  obtain ⟨b, -, h⟩ := except_bind_ok h
  split at h
  · cases h
    exact .bare (by decide)
  obtain ⟨b, -, h⟩ := except_bind_ok h
  split at h
  · cases h
    exact .bare (by decide)
  -- then the first character decides
  obtain ⟨c, -, h⟩ := except_bind_ok h
  split at h
  · obtain ⟨r, hr, h⟩ := except_bind_ok h
    cases r with
    | none => cases h
    | some sp =>
        cases h
        exact .string hr
  split at h
  · obtain ⟨_, -, h⟩ := except_bind_ok h
    cases h
    exact .bare (by decide)
  split at h
  · obtain ⟨start, -, h⟩ := except_bind_ok h
    obtain ⟨_, -, h⟩ := except_bind_ok h
    split at h
    · cases h
      exact .bare (by decide)
    obtain ⟨r, hr, h⟩ := except_bind_ok h
    cases r with
    | none => cases h
    | some ip =>
        cases h
        exact .array hr
  split at h
  · obtain ⟨start, -, h⟩ := except_bind_ok h
    obtain ⟨_, -, h⟩ := except_bind_ok h
    split at h
    · cases h
      exact .bare (by decide)
    obtain ⟨r, hr, h⟩ := except_bind_ok h
    cases r with
    | none => cases h
    | some ip =>
        cases h
        exact .object hr
  · cases h

/-- The elements of an array: one value, and more after a comma. -/
theorem parseElements_some {fuel : Nat} {value ptr : Bytes} {items : List CJson}
    (h : parseElements (fuel + 1) value = .ok (some (items, ptr))) :
    ∃ start child ptr₁ more, parseValue fuel start = .ok (some (child, ptr₁)) ∧
      items = child :: more ∧
      (more = [] ∨ ∃ start' ptr', parseElements fuel start' = .ok (some (more, ptr'))) := by
  rw [parseElements] at h
  obtain ⟨start, -, h⟩ := except_bind_ok h
  obtain ⟨r, hr, h⟩ := except_bind_ok h
  cases r with
  | none => cases h
  | some cp =>
      obtain ⟨start', -, h⟩ := except_bind_ok h
      obtain ⟨c, -, h⟩ := except_bind_ok h
      split at h
      · obtain ⟨r', hr', h⟩ := except_bind_ok h
        cases r' with
        | none => cases h
        | some ip =>
            cases h
            exact ⟨_, _, _, _, hr, rfl, .inr ⟨_, _, hr'⟩⟩
      · split at h
        · cases h
          exact ⟨_, _, _, _, hr, rfl, .inl rfl⟩
        · cases h

/-- The members of an object, each with its name. -/
theorem parseMembers_some {fuel : Nat} {value ptr : Bytes} {items : List CJson}
    (h : parseMembers (fuel + 1) value = .ok (some (items, ptr))) :
    ∃ start child ptr₁ name more, parseValue fuel start = .ok (some (child, ptr₁)) ∧
      items = child.withString name :: more ∧
      (more = [] ∨ ∃ start' ptr', parseMembers fuel start' = .ok (some (more, ptr'))) := by
  rw [parseMembers] at h
  obtain ⟨start, -, h⟩ := except_bind_ok h
  obtain ⟨r, -, h⟩ := except_bind_ok h
  cases r with
  | none => cases h
  | some np =>
      obtain ⟨start', -, h⟩ := except_bind_ok h
      obtain ⟨c, -, h⟩ := except_bind_ok h
      split at h
      · cases h
      obtain ⟨start'', -, h⟩ := except_bind_ok h
      obtain ⟨r, hr, h⟩ := except_bind_ok h
      cases r with
      | none => cases h
      | some cp =>
          obtain ⟨_, -, h⟩ := except_bind_ok h
          obtain ⟨c, -, h⟩ := except_bind_ok h
          split at h
          · obtain ⟨r', hr', h⟩ := except_bind_ok h
            cases r' with
            | none => cases h
            | some ip =>
                cases h
                exact ⟨_, _, _, _, _, hr, rfl, .inr ⟨_, _, hr'⟩⟩
          · split at h
            · cases h
              exact ⟨_, _, _, _, _, hr, rfl, .inl rfl⟩
            · cases h

/-- A name is only given by the object around an item. -/
theorem ValueParsed.unnamed {fuel : Nat} {value ptr : Bytes} {i : CJson}
    (h : ValueParsed fuel value i ptr) : i.string = none := by
  cases h <;> rfl

/-- The three functions return well-typed trees. The induction is on the fuel
they share. -/
theorem parse_wellTyped : ∀ fuel : Nat,
    (∀ value i ptr, parseValue fuel value = .ok (some (i, ptr)) →
      WellTyped i ∧ i.string = none) ∧
    (∀ value items ptr, parseElements fuel value = .ok (some (items, ptr)) →
      ∀ i ∈ items, WellTyped i ∧ i.string = none) ∧
    (∀ value items ptr, parseMembers fuel value = .ok (some (items, ptr)) →
      ∀ i ∈ items, WellTyped i ∧ i.string.isSome = true)
  | 0 => by
      refine ⟨fun _ _ _ h => ?_, fun _ _ _ h => ?_, fun _ _ _ h => ?_⟩
      · rw [parseValue] at h
        cases h
      · rw [parseElements] at h
        cases h
      · rw [parseMembers] at h
        cases h
  | fuel + 1 => by
      obtain ⟨ihv, ihe, ihm⟩ := parse_wellTyped fuel
      refine ⟨fun value i ptr h => ?_, fun value items ptr h => ?_, fun value items ptr h => ?_⟩
      · have hparsed := parseValue_some h
        refine ⟨?_, hparsed.unnamed⟩
        cases hparsed with
        | bare ht => exact .bare ht
        | string hs =>
            refine .item (by simp) (fun b hb => ?_) (by simp) (by simp)
            cases hb
            exact parseString_room hs
        | array hr =>
            refine .item (by simp) (by simp) (fun j hj => ?_) fun j hj => (ihe _ _ _ hr j hj).1
            simp [(ihe _ _ _ hr j hj).2]
        | object hr =>
            refine .item (by simp) (by simp) (fun j hj => ?_) fun j hj => (ihm _ _ _ hr j hj).1
            simp [(ihm _ _ _ hr j hj).2]
      · obtain ⟨start, child, ptr₁, more, hchild, rfl, hmore⟩ := parseElements_some h
        intro i hi
        rcases List.mem_cons.mp hi with rfl | hi
        · exact ihv _ _ _ hchild
        · rcases hmore with rfl | ⟨start', ptr', hmore⟩
          · cases hi
          · exact ihe _ _ _ hmore i hi
      · obtain ⟨start, child, ptr₁, name, more, hchild, rfl, hmore⟩ := parseMembers_some h
        intro i hi
        rcases List.mem_cons.mp hi with rfl | hi
        · exact ⟨(ihv _ _ _ hchild).1.withString name, by simp⟩
        · rcases hmore with rfl | ⟨start', ptr', hmore⟩
          · cases hi
          · exact ihm _ _ _ hmore i hi

theorem cJSONParse_wellTyped {value : Bytes} {root : CJson}
    (h : cJSONParse value = .ok (some root)) : WellTyped root := by
  unfold cJSONParse at h
  obtain ⟨start, -, h⟩ := except_bind_ok h
  obtain ⟨r, hr, h⟩ := except_bind_ok h
  cases r with
  | none => cases h
  | some ip =>
      cases h
      exact ((parse_wellTyped _).1 _ _ _ hr).1

/-! ## Lookup -/

theorem getObjectItem_wellTyped {object i : CJson} {string : Bytes} (h : WellTyped object)
    (hi : cJSONGetObjectItem object string = some i) : WellTyped i :=
  h.child (List.mem_of_find?_eq_some hi)

/-- Members that all have names are found by their names. -/
theorem find_members (name : Bytes) : ∀ {c : List CJson}, (∀ i ∈ c, i.string.isSome = true) →
    ((members c).find? fun m => m.1.map tolower = name.map tolower).map (·.2) =
      (c.find? fun i => cJSONStrcaseEq i.string name).map CJson.value
  | [], _ => rfl
  | i :: c, h => by
      obtain ⟨s, hs⟩ := Option.isSome_iff_exists.mp (h i (List.mem_cons_self ..))
      have ih := find_members name fun j hj => h j (List.mem_cons_of_mem _ hj)
      simp only [members, List.find?_cons, cJSONStrcaseEq, hs, Option.map_some,
        Option.getD_some]
      cases decide (s.str.map tolower = name.map tolower) with
      | true => rfl
      | false => exact ih

/-- `cJSON_GetObjectItem` looks up a member of the value. -/
theorem value_getObjectItem {object : CJson} (h : WellTyped object) (string : Bytes) :
    (cJSONGetObjectItem object string).map CJson.value = object.value.get string := by
  cases h with
  | @item t v s c hv _ hn hc =>
      by_cases ht : t = .object
      · subst ht
        exact (find_members _ fun i hi => (hn i hi).mpr rfl).symm
      · have hnone : cJSONGetObjectItem (.item t v s c) string = none := by
          refine List.find?_eq_none.mpr fun i hi => ?_
          have hname : i.string = none := by
            simpa [ht] using hn i hi
          simp [cJSONStrcaseEq, hname]
        rw [hnone]
        cases t <;> first | rfl | exact absurd rfl ht

end Admlink
