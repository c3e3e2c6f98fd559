import Mathlib.Data.List.AList
import Mathlib.Data.List.Basic
import Mathlib.Data.List.Induction

/-!
# Maps with text keys

The source's `map[string]T` is a finite association list without repeated keys.
The operations here are the ones its code writes as loops over a map.
-/

namespace Go

/-- `map[string]α`. -/
abbrev GoMap (α : Type) := AList fun _ : String => α

namespace GoMap

variable {α β : Type}

/-- A map literal; a repeated key keeps its last value. -/
def ofList (l : List (String × α)) : GoMap α :=
  l.foldl (fun m e => m.insert e.1 e.2) ∅

section

variable {l : List (String × α)} {k : String} {v : α}

theorem ofList_append_singleton (l : List (String × α)) (e : String × α) :
    ofList (l ++ [e]) = (ofList l).insert e.1 e.2 := by
  rw [ofList, List.foldl_append]
  rfl

theorem mem_of_lookup_ofList (h : (ofList l).lookup k = some v) : (k, v) ∈ l := by
  induction l using List.reverseRecOn with
  | nil => exact absurd h (by simp [ofList])
  | append_singleton l e ih =>
    rw [ofList_append_singleton] at h
    by_cases hk : k = e.1
    · subst hk
      rw [AList.lookup_insert, Option.some.injEq] at h
      subst h
      simp
    · rw [AList.lookup_insert_ne hk] at h
      exact List.mem_append_left _ (ih h)

theorem exists_lookup_ofList (h : (k, v) ∈ l) : ∃ w, (ofList l).lookup k = some w := by
  induction l using List.reverseRecOn with
  | nil => exact absurd h List.not_mem_nil
  | append_singleton l e ih =>
    rw [ofList_append_singleton]
    by_cases hk : k = e.1
    · subst hk
      exact ⟨e.2, AList.lookup_insert _⟩
    · rw [AList.lookup_insert_ne hk]
      rcases List.mem_append.1 h with h | h
      · exact ih h
      · exact absurd (congrArg Prod.fst (List.mem_singleton.1 h)) hk

/-- The last pair of a key is the one a map keeps. -/
theorem lookup_ofList (l : List (String × α)) (k : String) :
    (ofList l).lookup k = (l.filter (·.1 = k)).getLast?.map (·.2) := by
  induction l using List.reverseRecOn with
  | nil => rfl
  | append_singleton l e ih =>
    rw [ofList_append_singleton, List.filter_append]
    by_cases hk : e.1 = k
    · rw [← hk, AList.lookup_insert, List.filter_cons_of_pos (by simp), List.filter_nil,
        List.getLast?_concat]
      rfl
    · rw [AList.lookup_insert_ne (Ne.symm hk), List.filter_cons_of_neg (by simpa using hk),
        List.filter_nil, List.append_nil, ih]

end

/-- Apply a function to every value, keeping the keys. -/
def mapVals (f : α → β) (m : GoMap α) : GoMap β where
  entries := m.entries.map fun e => ⟨e.1, f e.2⟩
  nodupKeys := by
    have hk : (m.entries.map fun e => (⟨e.1, f e.2⟩ : Sigma fun _ : String => β)).keys =
        m.entries.keys := by
      simp [List.keys, Function.comp_def]
    rw [List.NodupKeys, hk]
    exact m.nodupKeys

@[simp] theorem lookup_mapVals (f : α → β) (m : GoMap α) (k : String) :
    (mapVals f m).lookup k = (m.lookup k).map f :=
  @List.dlookup_map₂ _ _ (fun _ => α) (fun _ => β) m.entries (fun _ => f) k

/-- `for k, v := range upper { base[k] = v }`. -/
def overlay (base upper : GoMap α) : GoMap α :=
  upper.entries.foldl (fun m e => m.insert e.1 e.2) base

private theorem lookup_foldl_insert (l : List (Sigma fun _ : String => α)) (hl : l.NodupKeys)
    (base : GoMap α) (k : String) :
    (l.foldl (fun m e => m.insert e.1 e.2) base).lookup k =
      (l.dlookup k).or (base.lookup k) := by
  induction l generalizing base with
  | nil => rfl
  | cons e l ih =>
    obtain ⟨a, v⟩ := e
    obtain ⟨ha, hn⟩ := List.nodupKeys_cons.mp hl
    rw [List.foldl_cons, ih hn]
    by_cases hk : k = a
    · subst k
      rw [List.dlookup_eq_none.mpr ha, List.dlookup_cons_eq]
      simp
    · rw [List.dlookup_cons_ne _ _ hk, AList.lookup_insert_ne hk]

/-- An overlaid key has the overlay's value; every other key keeps its own. -/
@[simp] theorem lookup_overlay (base upper : GoMap α) (k : String) :
    (overlay base upper).lookup k = (upper.lookup k).or (base.lookup k) :=
  lookup_foldl_insert upper.entries upper.nodupKeys base k

/-- `for k, v := range m { if p(v) { delete(m, k) } }`. -/
def deleteIf (p : α → Bool) (m : GoMap α) : GoMap α where
  entries := m.entries.filter fun e => ! p e.2
  nodupKeys := m.nodupKeys.sublist List.filter_sublist

/-- The entries a deletion leaves. -/
theorem lookup_deleteIf {p : α → Bool} {m : GoMap α} {k : String} {v : α} :
    (m.deleteIf p).lookup k = some v ↔ m.lookup k = some v ∧ p v = false := by
  rw [← Option.mem_def, ← Option.mem_def, AList.mem_lookup_iff, AList.mem_lookup_iff]
  change (⟨k, v⟩ : Sigma fun _ : String => α) ∈ m.entries.filter _ ↔ _
  rw [List.mem_filter, Bool.not_eq_true']

/-- The map without the keys for which a test holds. -/
def deleteKeys (p : String → Bool) (m : GoMap α) : GoMap α where
  entries := m.entries.filter fun e => ! p e.1
  nodupKeys := m.nodupKeys.sublist List.filter_sublist

theorem lookup_deleteKeys (p : String → Bool) (m : GoMap α) (k : String) :
    (m.deleteKeys p).lookup k = if p k then none else m.lookup k := by
  ext v
  rw [← Option.mem_def, AList.mem_lookup_iff]
  change (⟨k, v⟩ : Sigma fun _ : String => α) ∈ m.entries.filter _ ↔ _
  rw [List.mem_filter, Bool.not_eq_true', ← AList.mem_lookup_iff]
  cases p k <;> simp

/-- The values of a map. -/
def values (m : GoMap α) : List α := m.entries.map fun e => e.2

theorem mem_values {m : GoMap α} {v : α} : v ∈ m.values ↔ ∃ k, m.lookup k = some v := by
  rw [values, List.mem_map]
  constructor
  · rintro ⟨⟨k, w⟩, he, rfl⟩
    exact ⟨k, AList.mem_lookup_iff.2 he⟩
  · rintro ⟨k, h⟩
    exact ⟨⟨k, v⟩, AList.mem_lookup_iff.1 h, rfl⟩

theorem length_values_erase (k : String) (m : GoMap α) :
    (values (m.erase k)).length ≤ m.values.length := by
  rw [values, values, List.length_map, List.length_map]
  exact (List.kerase_sublist k m.entries).length_le

theorem length_values_insert (k : String) (v : α) (m : GoMap α) :
    (values (m.insert k v)).length ≤ m.values.length + 1 := by
  rw [values, values, List.length_map, List.length_map, AList.entries_insert, List.length_cons]
  exact Nat.succ_le_succ (List.kerase_sublist k m.entries).length_le

/-- Every entry of a later map comes from an entry of this one under the same key. -/
def Within (r : α → α → Prop) (m later : GoMap α) : Prop :=
  ∀ k v', later.lookup k = some v' → ∃ v, m.lookup k = some v ∧ r v v'

section

variable {r : α → α → Prop} {m : GoMap α}

theorem Within.refl (hr : ∀ v, r v v) (m : GoMap α) : m.Within r m :=
  fun _ v h => ⟨v, h, hr v⟩

theorem Within.trans {m' m'' : GoMap α} (hr : ∀ u v w, r u v → r v w → r u w)
    (h : m.Within r m') (h' : m'.Within r m'') : m.Within r m'' := by
  intro k w hw
  obtain ⟨v, hv, hvw⟩ := h' k w hw
  obtain ⟨u, hu, huv⟩ := h k v hv
  exact ⟨u, hu, hr u v w huv hvw⟩

theorem within_deleteIf (hr : ∀ v, r v v) (p : α → Bool) : m.Within r (m.deleteIf p) :=
  fun _ v h => ⟨v, (lookup_deleteIf.1 h).1, hr v⟩

theorem lookup_of_erase {k k' : String} {v : α} (h : (m.erase k').lookup k = some v) :
    k ≠ k' ∧ m.lookup k = some v := by
  by_cases hk : k = k'
  · subst hk
    rw [AList.lookup_erase] at h
    cases h
  · rw [AList.lookup_erase_ne hk] at h
    exact ⟨hk, h⟩

theorem within_erase (hr : ∀ v, r v v) (k : String) : m.Within r (m.erase k) :=
  fun _ v h => ⟨v, (lookup_of_erase h).2, hr v⟩

/-- What is found after an insertion. -/
theorem lookup_of_insert {k k' : String} {v w : α} (h : (m.insert k' w).lookup k = some v) :
    k = k' ∧ v = w ∨ k ≠ k' ∧ m.lookup k = some v := by
  by_cases hk : k = k'
  · subst hk
    rw [AList.lookup_insert] at h
    exact .inl ⟨rfl, (Option.some.inj h).symm⟩
  · rw [AList.lookup_insert_ne hk] at h
    exact .inr ⟨hk, h⟩

/-- Replacing a value by one it is related to. -/
theorem within_insert (hr : ∀ v, r v v) {k : String} {v v' : α} (hk : m.lookup k = some v)
    (hv : r v v') : m.Within r (m.insert k v') := by
  intro j w hw
  obtain ⟨rfl, rfl⟩ | ⟨_, hj⟩ := lookup_of_insert hw
  · exact ⟨v, hk, hv⟩
  · exact ⟨w, hj, hr w⟩

end

/-- A map without entries, `len(m) == 0`. -/
def isEmpty (m : GoMap α) : Bool := m.entries.isEmpty

end GoMap

/-! ## Slices

The loops over a slice that stop at the first element they are looking for. -/

variable {α β : Type}

/-- Update the first element with a property, `s[i] = f(s[i]); break`. -/
def updateFirst (p : α → Bool) (f : α → α) : List α → List α
  | [] => []
  | x :: xs => if p x then f x :: xs else x :: updateFirst p f xs

/-- An update that keeps a key of the elements it meets keeps the list of keys. -/
theorem map_updateFirst {p : α → Bool} {f : α → α} {k : α → β}
    (h : ∀ x, p x = true → k (f x) = k x) (xs : List α) :
    (updateFirst p f xs).map k = xs.map k := by
  induction xs with
  | nil => rfl
  | cons x xs ih =>
    rw [updateFirst]
    split
    · rename_i hp
      rw [List.map_cons, List.map_cons, h x hp]
    · rw [List.map_cons, List.map_cons, ih]

/-- A selection that holds neither the updated element nor what it becomes is unchanged. -/
theorem filter_updateFirst {p q : α → Bool} {f : α → α} {xs : List α}
    (h : ∀ x, xs.find? p = some x → q x = false ∧ q (f x) = false) :
    (updateFirst p f xs).filter q = xs.filter q := by
  induction xs with
  | nil => rfl
  | cons x xs ih =>
    rw [updateFirst]
    split
    · rename_i hp
      obtain ⟨hx, hfx⟩ := h x (List.find?_cons_of_pos hp)
      rw [List.filter_cons_of_neg (by simp [hfx]), List.filter_cons_of_neg (by simp [hx])]
    · rename_i hp
      have hrest := ih fun y hy => h y (by rwa [List.find?_cons_of_neg hp])
      simp only [List.filter_cons, hrest]

end Go
