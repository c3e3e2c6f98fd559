import Konnekt.Js.Json

/-!
# Values as encoding/json writes them

A struct keeps the order of its members and a map is written in the order of its keys.
What stands under chosen keys can be mapped, collected and blanked: two values differ
only in the text under these keys when they are the same once it is blanked.
-/

namespace Go

/-- A value given to `json.Marshal`, or read back by `json.Unmarshal` into an `any`. -/
inductive JsonValue where
  | null
  | bool (b : Bool)
  | int (n : Int)
  | float (f : Float64)
  | str (s : String)
  | arr (elems : List JsonValue)
  | struct (members : List (String × JsonValue))
  | map (members : List (String × JsonValue))

namespace JsonValue

/-- Induction over a value: what it is made of are its elements and what its members hold. -/
theorem induct {P : JsonValue → Prop} (null : P null) (bool : ∀ b, P (bool b))
    (int : ∀ n, P (int n)) (float : ∀ f, P (float f)) (str : ∀ s, P (str s))
    (arr : ∀ elems, (∀ v ∈ elems, P v) → P (arr elems))
    (struct : ∀ members, (∀ m ∈ members, P m.2) → P (struct members))
    (map : ∀ members, (∀ m ∈ members, P m.2) → P (map members)) (v : JsonValue) : P v :=
  @JsonValue.rec P (fun elems => ∀ v ∈ elems, P v) (fun members => ∀ m ∈ members, P m.2)
    (fun m => P m.2) null bool int float str arr struct map
    (by simp) (fun _ _ hv hrest => List.forall_mem_cons.mpr ⟨hv, hrest⟩)
    (by simp) (fun _ _ hm hrest => List.forall_mem_cons.mpr ⟨hm, hrest⟩)
    (fun _ _ hv => hv) v

/-! ## Text under chosen keys -/

section Keys

variable (keys : List String) (f : String → String)

mutual

/-- Every text that stands under one of the keys, at any depth, through `f`. -/
def mapUnder : JsonValue → JsonValue
  | .arr elems => .arr (mapElems elems)
  | .struct members => .struct (mapMembers members)
  | .map members => .map (mapMembers members)
  | v => v

def mapElems : List JsonValue → List JsonValue
  | [] => []
  | v :: rest => mapUnder v :: mapElems rest

def mapMembers : List (String × JsonValue) → List (String × JsonValue)
  | [] => []
  | (k, .str s) :: rest => (k, .str (if k ∈ keys then f s else s)) :: mapMembers rest
  | (k, v) :: rest => (k, mapUnder v) :: mapMembers rest

end

/-- What becomes of the value of a member. -/
def mapAt (k : String) : JsonValue → JsonValue
  | .str s => .str (if k ∈ keys then f s else s)
  | v => mapUnder keys f v

mutual

/-- The texts that stand under one of the keys, at any depth. -/
def under : JsonValue → List String
  | .arr elems => underElems elems
  | .struct members => underMembers members
  | .map members => underMembers members
  | _ => []

def underElems : List JsonValue → List String
  | [] => []
  | v :: rest => under v ++ underElems rest

def underMembers : List (String × JsonValue) → List String
  | [] => []
  | (k, .str s) :: rest => (if k ∈ keys then [s] else []) ++ underMembers rest
  | (_, v) :: rest => under v ++ underMembers rest

end

/-- The texts that the value of a member gives. -/
def underAt (k : String) : JsonValue → List String
  | .str s => if k ∈ keys then [s] else []
  | v => under keys v

/-- The value without the texts under the keys. -/
def blank (v : JsonValue) : JsonValue := v.mapUnder keys fun _ => ""

@[simp] theorem mapElems_eq_map (elems : List JsonValue) :
    mapElems keys f elems = elems.map (mapUnder keys f) := by
  induction elems with
  | nil => simp only [mapElems, List.map_nil]
  | cons v rest ih => simp only [mapElems, ih, List.map_cons]

@[simp] theorem mapMembers_eq_map (members : List (String × JsonValue)) :
    mapMembers keys f members = members.map fun m => (m.1, mapAt keys f m.1 m.2) := by
  induction members with
  | nil => simp only [mapMembers, List.map_nil]
  | cons m rest ih =>
    obtain ⟨k, v⟩ := m
    cases v <;> simp only [mapMembers, mapAt, ih, List.map_cons]

@[simp] theorem underElems_eq_flatMap (elems : List JsonValue) :
    underElems keys elems = elems.flatMap (under keys) := by
  induction elems with
  | nil => simp only [underElems, List.flatMap_nil]
  | cons v rest ih => simp only [underElems, ih, List.flatMap_cons]

@[simp] theorem underMembers_eq_flatMap (members : List (String × JsonValue)) :
    underMembers keys members = members.flatMap fun m => underAt keys m.1 m.2 := by
  induction members with
  | nil => simp only [underMembers, List.flatMap_nil]
  | cons m rest ih =>
    obtain ⟨k, v⟩ := m
    cases v <;> simp only [underMembers, underAt, ih, List.flatMap_cons]

/-! ### Laws -/

theorem underAt_mapAt {k : String} {v : JsonValue}
    (h : (v.mapUnder keys f).under keys = (v.under keys).map f) :
    underAt keys k (mapAt keys f k v) = (underAt keys k v).map f := by
  cases v with
  | str s =>
    by_cases hk : k ∈ keys
    · simp [mapAt, underAt, hk]
    · simp [mapAt, underAt, hk]
  | _ => exact h

/-- The texts of a mapped value are those of the value, mapped. -/
theorem under_mapUnder (v : JsonValue) : (v.mapUnder keys f).under keys = (v.under keys).map f := by
  have members : ∀ members : List (String × JsonValue),
      (∀ m ∈ members, (m.2.mapUnder keys f).under keys = (m.2.under keys).map f) →
      underMembers keys (mapMembers keys f members) = (underMembers keys members).map f := by
    intro members ih
    simp only [mapMembers_eq_map, underMembers_eq_flatMap, List.flatMap_map, List.map_flatMap]
    apply List.flatMap_congr
    intro m hm
    exact underAt_mapAt keys f (ih m hm)
  induction v using induct with
  | arr elems ih =>
    simp only [mapUnder, under, mapElems_eq_map, underElems_eq_flatMap, List.flatMap_map,
      List.map_flatMap]
    exact List.flatMap_congr ih
  | struct ms ih => simpa only [mapUnder, under] using members ms ih
  | map ms ih => simpa only [mapUnder, under] using members ms ih
  | null | bool | int | float | str => rfl

theorem mapAt_mapAt (g : String → String) {k : String} {v : JsonValue}
    (h : (v.mapUnder keys f).mapUnder keys g = v.mapUnder keys (g ∘ f)) :
    mapAt keys g k (mapAt keys f k v) = mapAt keys (g ∘ f) k v := by
  cases v with
  | str s =>
    by_cases hk : k ∈ keys
    · simp only [mapAt, hk, if_true, Function.comp_apply]
    · simp only [mapAt, hk, if_false]
  | _ => exact h

/-- One map after another is the map of the composition. -/
theorem mapUnder_mapUnder (g : String → String) (v : JsonValue) :
    (v.mapUnder keys f).mapUnder keys g = v.mapUnder keys (g ∘ f) := by
  have members : ∀ members : List (String × JsonValue),
      (∀ m ∈ members, (m.2.mapUnder keys f).mapUnder keys g = m.2.mapUnder keys (g ∘ f)) →
      mapMembers keys g (mapMembers keys f members) = mapMembers keys (g ∘ f) members := by
    intro members ih
    simp only [mapMembers_eq_map, List.map_map]
    apply List.map_congr_left
    intro m hm
    exact congrArg (Prod.mk m.1) (mapAt_mapAt keys f g (ih m hm))
  induction v using induct with
  | arr elems ih =>
    simp only [mapUnder, mapElems_eq_map, List.map_map, arr.injEq]
    exact List.map_congr_left ih
  | struct ms ih => simpa only [mapUnder, struct.injEq] using members ms ih
  | map ms ih => simpa only [mapUnder, map.injEq] using members ms ih
  | null | bool | int | float | str => rfl

/-- Mapping the texts under the keys changes nothing else. -/
theorem blank_mapUnder (v : JsonValue) : (v.mapUnder keys f).blank keys = v.blank keys := by
  unfold blank
  rw [mapUnder_mapUnder]
  rfl

/-- With no key nothing is mapped. -/
theorem mapUnder_nil (v : JsonValue) : v.mapUnder [] f = v := by
  have members : ∀ members : List (String × JsonValue),
      (∀ m ∈ members, m.2.mapUnder [] f = m.2) → mapMembers [] f members = members := by
    intro members ih
    have same : ∀ m ∈ members, (m.1, mapAt [] f m.1 m.2) = m := by
      rintro ⟨k, v⟩ hm
      cases v with
      | str s => simp only [mapAt, List.not_mem_nil, if_false]
      | _ => exact congrArg (Prod.mk k) (ih _ hm)
    rw [mapMembers_eq_map, List.map_congr_left same, List.map_id']
  induction v using induct with
  | arr elems ih =>
    simp only [mapUnder, mapElems_eq_map, arr.injEq]
    rw [List.map_congr_left ih, List.map_id']
  | struct ms ih => simpa only [mapUnder, struct.injEq] using members ms ih
  | map ms ih => simpa only [mapUnder, map.injEq] using members ms ih
  | null | bool | int | float | str => rfl

@[simp] theorem blank_nil (v : JsonValue) : v.blank [] = v := mapUnder_nil _ v

@[simp] theorem under_nil (v : JsonValue) : v.under [] = [] := by
  have members : ∀ members : List (String × JsonValue),
      (∀ m ∈ members, m.2.under [] = []) → underMembers [] members = [] := by
    intro members ih
    rw [underMembers_eq_flatMap, List.flatMap_eq_nil_iff]
    rintro ⟨k, v⟩ hm
    cases v with
    | str s => rfl
    | _ => exact ih _ hm
  induction v using induct with
  | arr elems ih =>
    rw [under, underElems_eq_flatMap, List.flatMap_eq_nil_iff]
    exact ih
  | struct ms ih => exact members ms ih
  | map ms ih => exact members ms ih
  | null | bool | int | float | str => rfl

end Keys

/-! ## Encoding -/

mutual

/-- Whether `json.Marshal` takes the value: it refuses a number that is not finite. -/
def finite : JsonValue → Bool
  | .float (.fin _) => true
  | .float _ => false
  | .arr elems => finiteElems elems
  | .struct members => finiteMembers members
  | .map members => finiteMembers members
  | _ => true

def finiteElems : List JsonValue → Bool
  | [] => true
  | v :: rest => finite v && finiteElems rest

def finiteMembers : List (String × JsonValue) → Bool
  | [] => true
  | (_, v) :: rest => finite v && finiteMembers rest

end

/-- One character inside a JSON text; `json.Marshal` escapes what HTML gives a meaning to. -/
def escape (c : Char) : List Char :=
  match c with
  | '"' => ['\\', '"']
  | '\\' => ['\\', '\\']
  | '\n' => ['\\', 'n']
  | '\r' => ['\\', 'r']
  | '\t' => ['\\', 't']
  | c =>
    let n := c.toNat
    if n = 8 then ['\\', 'b']
    else if n = 12 then ['\\', 'f']
    else if n < 32 ∨ c ∈ ['<', '>', '&'] then
      ['\\', 'u', '0', '0', hexDigit (n / 16), hexDigit (n % 16)]
    else if n = 0x2028 ∨ n = 0x2029 then ['\\', 'u', '2', '0', '2', hexDigit (n % 16)]
    else [c]

/-- A JSON text. -/
def quoted (s : String) : List Char := '"' :: s.toList.flatMap escape ++ ['"']

mutual

/-- The JSON of a value without numbers that are not finite; those are printed as in ES6. -/
def text : JsonValue → List Char
  | .null => "null".toList
  | .bool b => (if b then "true" else "false").toList
  | .int n => (toString n).toList
  | .float f => (Js.numberText f).toList
  | .str s => quoted s
  | .arr elems => '[' :: (List.intercalate [','] (textElems elems) ++ [']'])
  | .struct members =>
    '{' :: (List.intercalate [','] ((textMembers members).map Prod.snd) ++ ['}'])
  | .map members =>
    let sorted := (textMembers members).mergeSort fun a b => decide (a.1 ≤ b.1)
    '{' :: (List.intercalate [','] (sorted.map Prod.snd) ++ ['}'])

def textElems : List JsonValue → List (List Char)
  | [] => []
  | v :: rest => text v :: textElems rest

/-- The keys, each with the text of its member. -/
def textMembers : List (String × JsonValue) → List (String × List Char)
  | [] => []
  | (k, v) :: rest => (k, quoted k ++ ':' :: text v) :: textMembers rest

end

/-- `json.Marshal`. -/
def marshal (v : JsonValue) : Except String String :=
  if v.finite then .ok (String.ofList v.text) else .error "json: unsupported value"

/-- The number a JSON number reads back as. -/
def asFloat64 (n : Int) : Float64 :=
  .fin (if n = 0 then 0 else n.sign * nearestFloat n.natAbs)

mutual

/-- `json.Unmarshal` of the value's JSON into an `any`. -/
def generic : JsonValue → JsonValue
  | .int n => .float (asFloat64 n)
  | .arr elems => .arr (genericElems elems)
  | .struct members => .map (genericMembers members)
  | .map members => .map (genericMembers members)
  | v => v

def genericElems : List JsonValue → List JsonValue
  | [] => []
  | v :: rest => generic v :: genericElems rest

def genericMembers : List (String × JsonValue) → List (String × JsonValue)
  | [] => []
  | (k, v) :: rest => (k, generic v) :: genericMembers rest

end

@[simp] theorem finiteElems_eq_all (elems : List JsonValue) :
    finiteElems elems = elems.all finite := by
  induction elems with
  | nil => simp only [finiteElems, List.all_nil]
  | cons v rest ih => simp only [finiteElems, ih, List.all_cons]

@[simp] theorem finiteMembers_eq_all (members : List (String × JsonValue)) :
    finiteMembers members = members.all fun m => m.2.finite := by
  induction members with
  | nil => simp only [finiteMembers, List.all_nil]
  | cons m rest ih => simp only [finiteMembers, ih, List.all_cons]

@[simp] theorem genericElems_eq_map (elems : List JsonValue) :
    genericElems elems = elems.map generic := by
  induction elems with
  | nil => simp only [genericElems, List.map_nil]
  | cons v rest ih => simp only [genericElems, ih, List.map_cons]

@[simp] theorem genericMembers_eq_map (members : List (String × JsonValue)) :
    genericMembers members = members.map fun m => (m.1, m.2.generic) := by
  induction members with
  | nil => simp only [genericMembers, List.map_nil]
  | cons m rest ih => simp only [genericMembers, ih, List.map_cons]

theorem all_congr_mem {α : Type} {p q : α → Bool} {l : List α} (h : ∀ a ∈ l, p a = q a) :
    l.all p = l.all q := by
  induction l with
  | nil => rfl
  | cons a l ih =>
    rw [List.all_cons, List.all_cons, h a List.mem_cons_self,
      ih fun b hb => h b (List.mem_cons_of_mem a hb)]

/-- Texts do not decide whether a value can be encoded. -/
@[simp] theorem finite_mapUnder (keys : List String) (f : String → String) (v : JsonValue) :
    (v.mapUnder keys f).finite = v.finite := by
  have members : ∀ members : List (String × JsonValue),
      (∀ m ∈ members, (m.2.mapUnder keys f).finite = m.2.finite) →
      finiteMembers (mapMembers keys f members) = finiteMembers members := by
    intro members ih
    simp only [mapMembers_eq_map, finiteMembers_eq_all, List.all_map, Function.comp_def]
    apply all_congr_mem
    rintro ⟨k, v⟩ hm
    cases v with
    | str s => simp only [mapAt, finite]
    | _ => exact ih _ hm
  induction v using induct with
  | arr elems ih =>
    simp only [mapUnder, finite, mapElems_eq_map, finiteElems_eq_all, List.all_map,
      Function.comp_def]
    exact all_congr_mem ih
  | struct ms ih => simpa only [mapUnder, finite] using members ms ih
  | map ms ih => simpa only [mapUnder, finite] using members ms ih
  | null | bool | int | float | str => rfl

@[simp] theorem finite_generic (v : JsonValue) : v.generic.finite = v.finite := by
  have members : ∀ members : List (String × JsonValue),
      (∀ m ∈ members, m.2.generic.finite = m.2.finite) →
      finiteMembers (genericMembers members) = finiteMembers members := by
    intro members ih
    simp only [genericMembers_eq_map, finiteMembers_eq_all, List.all_map, Function.comp_def]
    exact all_congr_mem ih
  induction v using induct with
  | arr elems ih =>
    simp only [generic, finite, genericElems_eq_map, finiteElems_eq_all, List.all_map,
      Function.comp_def]
    exact all_congr_mem ih
  | struct ms ih => simpa only [generic, finite] using members ms ih
  | map ms ih => simpa only [generic, finite] using members ms ih
  | null | bool | int | float | str => rfl

end JsonValue

end Go
