import Mathlib.Data.List.Nodup
import Mathlib.Data.Set.Finite.Basic
import Mathlib.Logic.Relation

/-!
# Breadth-first walks that take each key once

Nodes have edges, every edge has a key, and some lead on to a node. A walk takes the first
edge of each key that it meets and goes on along the edges it took. What it takes is
compared with all the edges there are, level by level: they give the same first edges where
the edges of a key that lead on lead where the first of them does.
-/

namespace FirstVisit

variable {N E K : Type} [DecidableEq K]

/-! ## The first of each key -/

section

variable (key : E → K)

/-- The first edges of each key, short of those that have been seen. -/
def firsts (seen : List K) : List E → List E
  | [] => []
  | e :: l => if key e ∈ seen then firsts seen l else e :: firsts (key e :: seen) l

variable {key} {seen : List K} {l l' : List E}

theorem firsts_congr {seen' : List K} (h : ∀ k, k ∈ seen ↔ k ∈ seen') (l : List E) :
    firsts key seen l = firsts key seen' l := by
  induction l generalizing seen seen' with
  | nil => rfl
  | cons e l ih =>
    have hcons : ∀ k, k ∈ key e :: seen ↔ k ∈ key e :: seen' := by
      intro k
      rw [List.mem_cons, List.mem_cons, h]
    simp only [firsts, h, ih h, ih hcons]

/-- An edge is the first of its key, and its key has not been seen. -/
theorem mem_firsts_iff {e : E} : e ∈ firsts key seen l ↔
    key e ∉ seen ∧ l.find? (key · = key e) = some e := by
  induction l generalizing seen with
  | nil => simp [firsts]
  | cons d l ih =>
    by_cases hd : key d ∈ seen
    · rw [firsts, if_pos hd, ih]
      refine and_congr_right fun he => ?_
      have hne : key d ≠ key e := by
        rintro heq
        exact he (heq ▸ hd)
      rw [List.find?_cons_of_neg (by simpa using hne)]
    · rw [firsts, if_neg hd, List.mem_cons, ih, List.mem_cons, not_or]
      by_cases heq : key d = key e
      · rw [List.find?_cons_of_pos (by simpa using heq)]
        constructor
        · rintro (rfl | h)
          · exact ⟨hd, rfl⟩
          · exact absurd heq.symm h.1.1
        · rintro ⟨-, h⟩
          exact .inl (Option.some.inj h).symm
      · rw [List.find?_cons_of_neg (by simpa using heq)]
        constructor
        · rintro (rfl | h)
          · exact absurd rfl heq
          · exact ⟨h.1.2, h.2⟩
        · rintro ⟨he, h⟩
          exact .inr ⟨⟨Ne.symm heq, he⟩, h⟩

theorem nodup_firsts : ((firsts key seen l).map key).Nodup := by
  induction l generalizing seen with
  | nil => exact List.nodup_nil
  | cons e l ih =>
    rw [firsts]
    split
    · exact ih
    · rw [List.map_cons, List.nodup_cons]
      refine ⟨fun hmem => ?_, ih⟩
      obtain ⟨d, hd, hkey⟩ := List.mem_map.1 hmem
      exact (mem_firsts_iff.1 hd).1 (hkey ▸ List.mem_cons_self)

/-- Every key of the list has been seen or has a first edge. -/
theorem mem_keys_firsts {k : K} (hk : k ∉ seen) :
    k ∈ (firsts key seen l).map key ↔ k ∈ l.map key := by
  constructor
  · intro h
    obtain ⟨e, he, rfl⟩ := List.mem_map.1 h
    exact List.mem_map_of_mem (List.mem_of_find?_eq_some (mem_firsts_iff.1 he).2)
  · intro h
    cases hfind : l.find? (key · = k) with
    | none =>
      obtain ⟨e, he, rfl⟩ := List.mem_map.1 h
      exact absurd (List.find?_eq_none.1 hfind e he) (by simp)
    | some e =>
      obtain rfl : key e = k := by simpa using List.find?_some hfind
      exact List.mem_map_of_mem (mem_firsts_iff.2 ⟨hk, hfind⟩)

theorem firsts_append (l l' : List E) : firsts key seen (l ++ l') =
    firsts key seen l ++ firsts key (l.map key ++ seen) l' := by
  induction l generalizing seen with
  | nil => rfl
  | cons e l ih =>
    rw [List.cons_append, firsts, firsts]
    split
    · next he =>
      rw [ih]
      congr 1
      apply firsts_congr
      intro k
      simp only [List.map_cons, List.cons_append, List.mem_cons, List.mem_append]
      constructor
      · exact .inr
      · rintro (rfl | h)
        · exact .inr he
        · exact h
    · rw [ih, List.cons_append]
      congr 2
      apply firsts_congr
      intro k
      simp only [List.map_cons, List.cons_append, List.mem_cons, List.mem_append]
      exact or_left_comm

/-- Nothing new comes of keys that have been seen. -/
theorem firsts_eq_nil (h : ∀ e ∈ l, key e ∈ seen) : firsts key seen l = [] := by
  rw [List.eq_nil_iff_forall_not_mem]
  intro e he
  obtain ⟨hnot, hfind⟩ := mem_firsts_iff.1 he
  exact hnot (h e (List.mem_of_find?_eq_some hfind))

theorem mem_keys_append_seen (k : K) :
    k ∈ (firsts key seen l).map key ++ seen ↔ k ∈ l.map key ++ seen := by
  by_cases hk : k ∈ seen
  · simp [hk]
  · rw [List.mem_append, List.mem_append, mem_keys_firsts hk]

theorem firsts_prefix (h : l <+: l') : firsts key seen l <+: firsts key seen l' := by
  obtain ⟨t, rfl⟩ := h
  rw [firsts_append]
  exact List.prefix_append _ _

end

/-! ## The walk -/

section

variable (edges : N → List E) (key : E → K) (next : E → Option N)

/-- Walk from the nodes of a queue for so many turns; a walk that is not done by then gives nothing.
-/
def walk : Nat → List N → List K → Option (List E)
  | _, [], _ => some []
  | 0, _ :: _, _ => none
  | n + 1, v :: rest, seen =>
    let new := firsts key seen (edges v)
    (walk n (rest ++ new.filterMap next) (new.map key ++ seen)).map (new ++ ·)

/-- A node follows on another. -/
def Follows (v w : N) : Prop := ∃ e ∈ edges v, next e = some w

/-- The nodes that can be reached along edges that lead on. -/
def Reaches : N → N → Prop := Relation.ReflTransGen (Follows edges next)

/-- All edges of so many levels, as often as they come up. -/
def levels (root : N) : Nat → List E
  | 0 => []
  | n + 1 => (root :: (levels root n).filterMap next).flatMap edges

/-- The first edges of each key within so many levels, if only first edges are followed. -/
def firstLevels (seen : List K) (root : N) : Nat → List E
  | 0 => []
  | n + 1 => firsts key seen ((root :: (firstLevels seen root n).filterMap next).flatMap edges)

variable {edges key next}

/-- What a walk takes are the first edges of the nodes it visits. -/
theorem eq_firsts_of_walk {n : Nat} {queue : List N} {seen : List K} {taken : List E}
    (h : walk edges key next n queue seen = some taken) :
    taken = firsts key seen ((queue ++ taken.filterMap next).flatMap edges) := by
  induction n generalizing queue seen taken with
  | zero =>
    cases queue with
    | nil =>
      rw [walk] at h
      obtain rfl := Option.some.inj h
      rfl
    | cons v rest => cases h
  | succ n ih =>
    cases queue with
    | nil =>
      rw [walk] at h
      obtain rfl := Option.some.inj h
      rfl
    | cons v rest =>
      rw [walk] at h
      obtain ⟨later, hlater, rfl⟩ := Option.map_eq_some_iff.1 h
      have hih := ih hlater
      rw [List.cons_append, List.flatMap_cons, firsts_append, List.filterMap_append,
        ← List.append_assoc]
      congr 1
      conv_lhs => rw [hih]
      exact firsts_congr mem_keys_append_seen _

theorem reaches_of_walk {P : N → Prop} (hstep : ∀ v w, P v → Follows edges next v w → P w) {n : Nat}
    {queue : List N} {seen : List K} {taken : List E} (hqueue : ∀ v ∈ queue, P v)
    (h : walk edges key next n queue seen = some taken) : ∀ e ∈ taken, ∃ v, P v ∧ e ∈ edges v := by
  induction n generalizing queue seen taken with
  | zero =>
    cases queue with
    | nil =>
      rw [walk] at h
      obtain rfl := Option.some.inj h
      exact fun e he => absurd he List.not_mem_nil
    | cons v rest => cases h
  | succ n ih =>
    cases queue with
    | nil =>
      rw [walk] at h
      obtain rfl := Option.some.inj h
      exact fun e he => absurd he List.not_mem_nil
    | cons v rest =>
      rw [walk] at h
      obtain ⟨later, hlater, rfl⟩ := Option.map_eq_some_iff.1 h
      rw [List.forall_mem_cons] at hqueue
      have hnew : ∀ e ∈ firsts key seen (edges v), e ∈ edges v :=
        fun e he => List.mem_of_find?_eq_some (mem_firsts_iff.1 he).2
      rw [List.forall_mem_append]
      refine ⟨fun e he => ⟨v, hqueue.1, hnew e he⟩, ih ?_ hlater⟩
      rw [List.forall_mem_append]
      refine ⟨hqueue.2, fun w hw => ?_⟩
      obtain ⟨e, he, hnext⟩ := List.mem_filterMap.1 hw
      exact hstep v w hqueue.1 ⟨e, hnew e he, hnext⟩

/-- A walk is done after a turn for each node it starts from and each key it can meet. -/
theorem exists_walk {P : N → Prop} (hstep : ∀ v w, P v → Follows edges next v w → P w)
    {keys : Finset K} (hkeys : ∀ v, P v → ∀ e ∈ edges v, key e ∈ keys) {n : Nat} {queue : List N}
    {seen : List K} (hqueue : ∀ v ∈ queue, P v)
    (hn : queue.length + (keys.filter (· ∉ seen)).card ≤ n) :
    ∃ taken, walk edges key next n queue seen = some taken := by
  induction n generalizing queue seen with
  | zero =>
    cases queue with
    | nil => exact ⟨[], by rw [walk]⟩
    | cons v rest =>
      rw [List.length_cons] at hn
      omega
  | succ n ih =>
    cases queue with
    | nil => exact ⟨[], by rw [walk]⟩
    | cons v rest =>
      rw [List.forall_mem_cons] at hqueue
      let new := firsts key seen (edges v)
      have hnew : ∀ e ∈ new, e ∈ edges v ∧ key e ∉ seen := by
        intro e he
        obtain ⟨hseen, hfind⟩ := mem_firsts_iff.1 he
        exact ⟨List.mem_of_find?_eq_some hfind, hseen⟩
      have hnext : ∀ w ∈ rest ++ new.filterMap next, P w := by
        rw [List.forall_mem_append]
        refine ⟨hqueue.2, fun w hw => ?_⟩
        obtain ⟨e, he, hlead⟩ := List.mem_filterMap.1 hw
        exact hstep v w hqueue.1 ⟨e, (hnew e he).1, hlead⟩
      -- Every new edge takes its key out of those that are left.
      have hcard : new.length + (keys.filter (· ∉ new.map key ++ seen)).card ≤
          (keys.filter (· ∉ seen)).card := by
        have hlength : (new.map key).toFinset.card = new.length := by
          rw [List.toFinset_card_of_nodup nodup_firsts, List.length_map]
        have hdisjoint : Disjoint (new.map key).toFinset
            (keys.filter (· ∉ new.map key ++ seen)) := by
          rw [Finset.disjoint_left]
          intro k hk hleft
          rw [List.mem_toFinset] at hk
          exact (Finset.mem_filter.1 hleft).2 (List.mem_append_left _ hk)
        rw [← hlength, ← Finset.card_union_of_disjoint hdisjoint]
        apply Finset.card_le_card
        intro k hk
        rw [Finset.mem_union, List.mem_toFinset, Finset.mem_filter] at hk
        rw [Finset.mem_filter]
        rcases hk with hk | ⟨hk, hleft⟩
        · obtain ⟨e, he, rfl⟩ := List.mem_map.1 hk
          exact ⟨hkeys v hqueue.1 e (hnew e he).1, (hnew e he).2⟩
        · exact ⟨hk, fun hmem => hleft (List.mem_append_right _ hmem)⟩
      have hsize := List.length_filterMap_le next new
      obtain ⟨later, hlater⟩ : ∃ later,
          walk edges key next n (rest ++ new.filterMap next) (new.map key ++ seen) =
            some later := by
        apply ih hnext
        rw [List.length_append]
        rw [List.length_cons] at hn
        omega
      refine ⟨new ++ later, ?_⟩
      rw [walk]
      exact Option.map_eq_some_iff.2 ⟨later, hlater, rfl⟩

/-- A walk takes no more than what holds all first edges of the nodes it leads to. -/
theorem prefix_of_walk {n : Nat} {queue : List N} {seen : List K} {taken all : List E}
    (h : walk edges key next n queue seen = some taken)
    (hall : all = firsts key seen ((queue ++ all.filterMap next).flatMap edges)) :
    taken <+: all := by
  induction n generalizing queue seen taken all with
  | zero =>
    cases queue with
    | nil =>
      rw [walk] at h
      obtain rfl := Option.some.inj h
      exact List.nil_prefix
    | cons v rest => cases h
  | succ n ih =>
    cases queue with
    | nil =>
      rw [walk] at h
      obtain rfl := Option.some.inj h
      exact List.nil_prefix
    | cons v rest =>
      rw [walk] at h
      obtain ⟨later, hlater, rfl⟩ := Option.map_eq_some_iff.1 h
      rw [List.cons_append, List.flatMap_cons, firsts_append] at hall
      have hkeys : ∀ l, firsts key ((firsts key seen (edges v)).map key ++ seen) l =
          firsts key ((edges v).map key ++ seen) l := firsts_congr mem_keys_append_seen
      rw [← hkeys] at hall
      generalize hrest : firsts key ((firsts key seen (edges v)).map key ++ seen)
        ((rest ++ all.filterMap next).flatMap edges) = others at hall
      rw [hall, List.prefix_append_right_inj]
      apply ih hlater
      rw [List.append_assoc, ← List.filterMap_append, ← hall, hrest]

/-- More turns give nothing more. -/
theorem walk_of_le {n m : Nat} {queue : List N} {seen : List K} {taken : List E} (hle : n ≤ m)
    (h : walk edges key next n queue seen = some taken) :
    walk edges key next m queue seen = some taken := by
  induction n generalizing m queue seen taken with
  | zero =>
    cases queue with
    | nil => rwa [walk] at h ⊢
    | cons v rest => cases h
  | succ n ih =>
    cases queue with
    | nil => rwa [walk] at h ⊢
    | cons v rest =>
      obtain ⟨m, rfl⟩ := Nat.exists_eq_add_of_le' (Nat.zero_lt_of_lt hle)
      rw [walk] at h ⊢
      obtain ⟨later, hlater, rfl⟩ := Option.map_eq_some_iff.1 h
      rw [ih (Nat.le_of_succ_le_succ hle) hlater]
      rfl

/-! ## Levels -/

variable {root : N}

/-- The levels hold the edges of the nodes that can be reached. -/
theorem exists_mem_levels_iff {e : E} : (∃ n, e ∈ levels edges next root n) ↔
    ∃ v, Reaches edges next root v ∧ e ∈ edges v := by
  constructor
  · rintro ⟨n, he⟩
    induction n generalizing e with
    | zero => cases he
    | succ n ih =>
      obtain ⟨v, hv, he⟩ := List.mem_flatMap.1 he
      cases List.mem_cons.1 hv with
      | inl h => exact ⟨v, h ▸ .refl, he⟩
      | inr h =>
        obtain ⟨d, hd, hnext⟩ := List.mem_filterMap.1 h
        obtain ⟨u, hu, hdu⟩ := ih hd
        exact ⟨v, .tail hu ⟨d, hdu, hnext⟩, he⟩
  · rintro ⟨v, hv, he⟩
    induction hv generalizing e with
    | refl => exact ⟨1, List.mem_flatMap.2 ⟨root, List.mem_cons_self, he⟩⟩
    | tail hu hstep ih =>
      obtain ⟨d, hd, hnext⟩ := hstep
      obtain ⟨n, hn⟩ := ih hd
      refine ⟨n + 1, List.mem_flatMap.2 ⟨_, List.mem_cons_of_mem _ ?_, he⟩⟩
      exact List.mem_filterMap.2 ⟨d, hn, hnext⟩

variable (key next root) in
/-- Where an edge leads on, the first edge of its key leads there too, and one of a key that was
seen before leads back to the root. -/
def Leads (seen : List K) (l : List E) : Prop :=
  ∀ e ∈ l, ∀ w, next e = some w →
    if key e ∈ seen then w = root else ∃ f, l.find? (key · = key e) = some f ∧ next f = some w

variable {seen : List K} {l : List E}

theorem Leads.of_append {l' : List E} (h : Leads key next root seen (l ++ l')) :
    Leads key next root seen l := by
  intro e he w hw
  have hlead := h e (List.mem_append_left _ he) w hw
  split at hlead
  · next hseen => rwa [if_pos hseen]
  · next hseen =>
    rw [if_neg hseen]
    obtain ⟨f, hfind, hf⟩ := hlead
    refine ⟨f, ?_, hf⟩
    rw [List.find?_append] at hfind
    cases hl : l.find? (key · = key e) with
    | none => exact absurd (List.find?_eq_none.1 hl e he) (by simp)
    | some d => rwa [hl, Option.some_or] at hfind

/-- Going on along the first edges of each key meets the same first edges as going on along all. -/
theorem Leads.firsts_flatMap (h : Leads key next root seen l) :
    firsts key seen ((root :: l.filterMap next).flatMap edges) =
      firsts key seen ((root :: (firsts key seen l).filterMap next).flatMap edges) := by
  induction l using List.reverseRecOn with
  | nil => rfl
  | append_singleton l e ih =>
    have hih := ih h.of_append
    have hlead := h e (List.mem_append_right _ List.mem_cons_self)
    rw [firsts_append, List.filterMap_append, List.filterMap_append, ← List.cons_append,
      ← List.cons_append, List.flatMap_append, List.flatMap_append, firsts_append, firsts_append,
      hih]
    congr 1
    have hkeys : ∀ k, k ∈ ((root :: l.filterMap next).flatMap edges).map key ++ seen ↔
        k ∈ ((root :: (firsts key seen l).filterMap next).flatMap edges).map key ++ seen := by
      intro k
      rw [← mem_keys_append_seen, hih, mem_keys_append_seen]
    rw [firsts_congr hkeys]
    by_cases hnew : key e ∈ l.map key ++ seen
    · have hnone : firsts key (l.map key ++ seen) [e] = [] := by
        apply firsts_eq_nil
        intro d hd
        rwa [List.mem_singleton.1 hd]
      rw [hnone, List.filterMap_nil, List.flatMap_nil, firsts]
      -- The node an old edge leads to has been met.
      apply firsts_eq_nil
      intro d hd
      obtain ⟨w, hw, hdw⟩ := List.mem_flatMap.1 hd
      obtain ⟨e', he', hnext⟩ := List.mem_filterMap.1 hw
      obtain rfl := List.mem_singleton.1 he'
      have hvisited : w ∈ root :: (firsts key seen l).filterMap next := by
        have hw := hlead w hnext
        split at hw
        · exact hw ▸ List.mem_cons_self
        · next hseen =>
          obtain ⟨f, hfind, hf⟩ := hw
          have hmem := (List.mem_append.1 hnew).resolve_right hseen
          rw [List.find?_append] at hfind
          cases hl : l.find? (key · = key e') with
          | none =>
            obtain ⟨c, hc, hkey⟩ := List.mem_map.1 hmem
            exact absurd (List.find?_eq_none.1 hl c hc) (by simpa using hkey)
          | some c =>
            rw [hl, Option.some_or] at hfind
            obtain rfl := Option.some.inj hfind
            have hkey : key c = key e' := by simpa using List.find?_some hl
            refine List.mem_cons_of_mem _ (List.mem_filterMap.2 ⟨c, ?_, hf⟩)
            rw [mem_firsts_iff, hkey]
            exact ⟨hseen, hl⟩
      apply List.mem_append_left
      exact List.mem_map_of_mem (List.mem_flatMap.2 ⟨w, hvisited, hdw⟩)
    · rw [firsts, if_neg hnew, firsts]

/-- The first edges of the levels are the first ones a walk from the root takes. -/
theorem firsts_levels_prefix {taken : List E}
    (hwalk : taken = firsts key seen ((root :: taken.filterMap next).flatMap edges)) {n : Nat}
    (hleads : Leads key next root seen (levels edges next root n))
    (h : firsts key seen (levels edges next root n) <+: taken) :
    firsts key seen (levels edges next root (n + 1)) <+: taken := by
  rw [levels, hleads.firsts_flatMap, hwalk]
  apply firsts_prefix
  obtain ⟨t, ht⟩ := h
  rw [← ht, List.filterMap_append, ← List.cons_append, List.flatMap_append]
  exact List.prefix_append _ _

theorem firstLevels_prefix {taken : List E}
    (hwalk : taken = firsts key seen ((root :: taken.filterMap next).flatMap edges)) (n : Nat) :
    firstLevels edges key next seen root n <+: taken := by
  induction n with
  | zero => exact List.nil_prefix
  | succ n ih =>
    rw [firstLevels, hwalk]
    apply firsts_prefix
    obtain ⟨t, ht⟩ := ih
    rw [← ht, List.filterMap_append, ← List.cons_append, List.flatMap_append]
    exact List.prefix_append _ _

theorem firstLevels_prefix_succ (n : Nat) : firstLevels edges key next seen root n <+:
    firstLevels edges key next seen root (n + 1) := by
  induction n with
  | zero => exact List.nil_prefix
  | succ n ih =>
    rw [firstLevels, firstLevels]
    apply firsts_prefix
    obtain ⟨t, ht⟩ := ih
    rw [← ht, List.filterMap_append, ← List.cons_append, List.flatMap_append]
    exact List.prefix_append _ _

/-- A walk takes the first edges of all levels. -/
theorem exists_firstLevels_eq {n : Nat} {taken : List E}
    (h : walk edges key next n [root] seen = some taken) :
    ∃ m, firstLevels edges key next seen root m = taken := by
  have htaken := firstLevels_prefix (eq_firsts_of_walk h)
  -- The levels grow within what is taken, so one of them adds nothing.
  have hstop : ∃ m, firstLevels edges key next seen root (m + 1) =
      firstLevels edges key next seen root m := by
    by_contra hgrow
    have hlength : ∀ m, m ≤ (firstLevels edges key next seen root m).length := by
      intro m
      induction m with
      | zero => exact Nat.zero_le _
      | succ m ih =>
        have hsucc : firstLevels edges key next seen root m <+:
            firstLevels edges key next seen root (m + 1) := firstLevels_prefix_succ m
        have hle := hsucc.length_le
        have hlt := lt_of_le_of_ne hle fun heq => hgrow ⟨m, (hsucc.eq_of_length heq).symm⟩
        omega
    have hlong := hlength (taken.length + 1)
    have hshort := (htaken (taken.length + 1)).length_le
    omega
  obtain ⟨m, hm⟩ := hstop
  refine ⟨m, (htaken m).eq_of_length_le ?_⟩
  apply (prefix_of_walk h _).length_le
  rw [List.singleton_append]
  exact hm.symm

end

end FirstVisit
