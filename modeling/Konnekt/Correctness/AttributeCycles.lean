import Mathlib
import Konnekt.Correctness.Arithmetic
import Konnekt.Scheduler.Guarded

/-!
# Cycles among custom attributes

A resolution ends: each nested call opens one more custom attribute, and there are only so
many. It leaves the guard set as it was, and it fails with the error of the guard exactly
when evaluation comes to a name that is still open.
-/

namespace Konnekt.Scheduler

open Go

/-! ## The set is restored -/

namespace Guarded

section

variable {α β : Type} {visiting : Finset String}

/-- A sequence of calls that leave the set alone. -/
theorem bind_gives {x : Guarded α} {f : α → Guarded β} {o : Outcome α} {g : α → Outcome β}
    (hx : x visiting = (o, visiting)) (hf : ∀ a, f a visiting = (g a, visiting)) :
    (x >>= f) visiting = (o >>= g, visiting) := by
  change Guarded.bind x f visiting = _
  rw [Guarded.bind, hx]
  cases o with
  | ok a => exact hf a
  | err m => rfl
  | panic r => rfl

variable {resolve : String → Guarded Value} {r : String → Outcome Value}

/-- One turn of an operator loop leaves the set alone when its parts do. -/
private theorem turn_gives {ops : Char → Option BinOp}
    {sub : List Char → Guarded (Value × List Char)} {psub : List Char → Parsed} {loop : Value → List Char → Guarded (Value × List Char)}
    {ploop : Value → List Char → Parsed}
    (hsub : ∀ s, sub s visiting = (psub s, visiting))
    (hloop : ∀ v s, loop v s visiting = (ploop v s, visiting)) (left : Value) (s : List Char) :
    (match skipSpace s with
      | [] => return (left, [])
      | c :: rest => match ops c with
        | none => return (left, c :: rest)
        | some op => do
          let (right, rest) ← sub rest
          let v ← lift (applyOp op left right)
          loop v rest : Guarded (Value × List Char)) visiting =
      (match skipSpace s with
        | [] => .ok (left, [])
        | c :: rest => match ops c with
          | none => .ok (left, c :: rest)
          | some op => do
            let (right, rest) ← psub rest
            let v ← applyOp op left right
            ploop v rest, visiting) := by
  cases skipSpace s with
  | nil => rfl
  | cons c rest =>
    dsimp only
    cases ops c with
    | none => rfl
    | some op =>
      exact bind_gives (hsub rest) fun p => bind_gives rfl fun v => hloop v p.2

/-- With references that leave the set alone, parsing does. -/
private theorem parse_gives (h : ∀ name, resolve name visiting = (r name, visiting)) (n : Nat) :
    (∀ s, parseExpr resolve n s visiting = (Scheduler.parseExpr r n s, visiting)) ∧
    (∀ v s, exprLoop resolve n v s visiting = (Scheduler.exprLoop r n v s, visiting)) ∧
    (∀ s, parseTerm resolve n s visiting = (Scheduler.parseTerm r n s, visiting)) ∧
    (∀ v s, termLoop resolve n v s visiting = (Scheduler.termLoop r n v s, visiting)) ∧
    (∀ s, parseFactor resolve n s visiting = (Scheduler.parseFactor r n s, visiting)) := by
  induction n with
  | zero => exact ⟨fun _ => rfl, fun _ _ => rfl, fun _ => rfl, fun _ _ => rfl, fun _ => rfl⟩
  | succ n ih =>
    obtain ⟨hexpr, hexprLoop, hterm, htermLoop, hfactor⟩ := ih
    refine ⟨fun s => ?_, turn_gives hterm hexprLoop, fun s => ?_, turn_gives hfactor htermLoop,
      fun s => ?_⟩
    · rw [parseExpr, Scheduler.parseExpr]
      exact bind_gives (hterm s) fun p => hexprLoop p.1 p.2
    · rw [parseTerm, Scheduler.parseTerm]
      exact bind_gives (hfactor s) fun p => htermLoop p.1 p.2
    · unfold parseFactor Scheduler.parseFactor
      cases skipSpace s with
      | nil => rfl
      | cons c rest =>
        dsimp only
        split
        · exact bind_gives (hfactor rest) fun p => bind_gives rfl fun f => rfl
        · split
          · exact bind_gives (hexpr rest) fun p => rfl
          · split
            · unfold parseRef Scheduler.parseRef
              dsimp only
              split
              · rfl
              · exact bind_gives (h _) fun v => rfl
            · rfl

theorem resolveCustomValue_gives (h : ∀ name, resolve name visiting = (r name, visiting))
    (raw : String) :
    resolveCustomValue resolve raw visiting = (Scheduler.resolveCustomValue r raw, visiting) := by
  unfold resolveCustomValue Scheduler.resolveCustomValue
  cases customBody raw with
  | none => dsimp only; cases parseFloat (trimSpace raw) <;> rfl
  | some body =>
    dsimp only
    unfold evalChars Scheduler.evalChars
    refine bind_gives ((parse_gives h _).1 _) fun ⟨v, rest⟩ => ?_
    dsimp only
    cases skipSpace rest <;> rfl

end

section

variable {scope : AttrScope}

/-- Whatever a resolution comes to, it leaves the guard set as it was. -/
theorem resolve_restores (n : Nat) (name : String) (visiting : Finset String) :
    (resolve scope n name visiting).2 = visiting := by
  induction n generalizing name visiting with
  | zero => rfl
  | succ n ih =>
    rw [resolve]
    cases scope.custom.lookup name with
    | none => rfl
    | some expr =>
      dsimp only
      split
      · rfl
      · rename_i hclosed
        have hgives : ∀ other, resolve scope n other (insert name visiting) =
            ((resolve scope n other (insert name visiting)).1, insert name visiting) :=
          fun other => Prod.ext rfl (ih other _)
        rw [resolveCustomValue_gives hgives]
        exact Finset.erase_insert hclosed

/-- The value of a reference in a nested evaluation, which the set decides. -/
def under (scope : AttrScope) (n : Nat) (visiting : Finset String) (name : String) :
    Outcome Value := (resolve scope n name visiting).1

theorem under_succ (n : Nat) (visiting : Finset String) (name : String) :
    under scope (n + 1) visiting name =
      match scope.custom.lookup name with
      | some expr =>
        if name ∈ visiting then .err (cycleError name)
        else Scheduler.resolveCustomValue (under scope n (insert name visiting)) expr
      | none => .ofExcept (readBuiltinAttribute scope.deps scope.serverID name) := by
  rw [under, resolve]
  cases scope.custom.lookup name with
  | none => rfl
  | some expr =>
    dsimp only
    split
    · rfl
    · have hgives : ∀ other, resolve scope n other (insert name visiting) =
          (under scope n (insert name visiting) other, insert name visiting) :=
        fun other => Prod.ext rfl (resolve_restores n other _)
      rw [resolveCustomValue_gives hgives]

/-! ## Nesting is bounded -/

/-- The custom attributes that are not being evaluated. -/
def closed (scope : AttrScope) (visiting : Finset String) : Finset String :=
  scope.custom.keys.toFinset \ visiting

theorem card_closed_insert_lt {visiting : Finset String} {name raw : String}
    (hraw : scope.custom.lookup name = some raw) (hclosed : name ∉ visiting) :
    (closed scope (insert name visiting)).card < (closed scope visiting).card := by
  apply Finset.card_lt_card
  have hmem : name ∈ closed scope visiting := by
    rw [closed, Finset.mem_sdiff, List.mem_toFinset]
    exact ⟨AList.lookup_isSome.1 (by rw [hraw]; rfl), hclosed⟩
  refine Finset.ssubset_iff_of_subset ?_ |>.2 ⟨name, hmem, ?_⟩
  · intro other hother
    rw [closed, Finset.mem_sdiff, Finset.mem_insert, not_or] at hother
    exact Finset.mem_sdiff.2 ⟨hother.1, hother.2.2⟩
  · rw [closed, Finset.mem_sdiff, not_and_or, not_not]
    exact .inr (Finset.mem_insert_self name visiting)

theorem card_closed_lt_budget (visiting : Finset String) :
    (closed scope visiting).card < resolveBudget scope := by
  have hle : (closed scope visiting).card ≤ scope.custom.keys.toFinset.card :=
    Finset.card_le_card Finset.sdiff_subset
  have hkeys := List.toFinset_card_le scope.custom.keys
  rw [AList.keys, List.keys, List.length_map] at hkeys
  exact Nat.lt_succ_of_le (hle.trans hkeys)

/-- More nested calls than there are closed attributes change nothing. -/
theorem under_eq_of_lt {visiting : Finset String} {n n' : Nat}
    (hn : (closed scope visiting).card < n) (hn' : (closed scope visiting).card < n') :
    under scope n visiting = under scope n' visiting := by
  induction n generalizing visiting n' with
  | zero => exact absurd hn (Nat.not_lt_zero _)
  | succ n ih =>
    obtain ⟨n', rfl⟩ := Nat.exists_eq_succ_of_ne_zero (Nat.ne_zero_of_lt hn')
    ext1 name
    rw [under_succ, under_succ]
    cases hraw : scope.custom.lookup name with
    | none => rfl
    | some raw =>
      by_cases hopen : name ∈ visiting
      · simp only [if_pos hopen]
      · have hlt := card_closed_insert_lt hraw hopen
        have hnext : under scope n (insert name visiting) =
            under scope n' (insert name visiting) := ih (by omega) (by omega)
        simp only [if_neg hopen, hnext]

end

end Guarded

/-! ## The failures of the evaluator itself -/

/-- The message is not one of the guard. -/
def Apart (m : String) : Prop := m.toList.head? ≠ some 'a'

theorem head?_append {m : String} {c : Char} (hm : m.toList.head? = some c) (m' : String) :
    (m ++ m').toList.head? = some c := by
  rw [String.toList_append, List.head?_append, hm]
  rfl

theorem apart_append {m : String} {c : Char} (hm : m.toList.head? = some c) (hc : c ≠ 'a')
    (m' : String) : Apart (m ++ m') := by
  rw [Apart, head?_append hm]
  exact fun h => hc (Option.some.inj h)

theorem head?_cycleError (a : String) : (Guarded.cycleError a).toList.head? = some 'a' := by
  have hmark : "attribute cycle at @".toList.head? = some 'a' := by decide
  exact head?_append hmark a

theorem Apart.ne_cycleError {m : String} (h : Apart m) (a : String) :
    m ≠ Guarded.cycleError a :=
  fun heq => h (heq ▸ head?_cycleError a)

theorem cycleError_injective {a b : String}
    (h : Guarded.cycleError a = Guarded.cycleError b) : a = b :=
  (String.append_right_inj _).mp h

/-- A step that neither runs out of its budget nor fails as the guard does. -/
structure Plain {α : Type} (x : Outcome α) : Prop where
  budget : x ≠ .panic outOfBudget
  guard : ∀ a, x ≠ .err (Guarded.cycleError a)

section

variable {α β : Type}

theorem plain_ok (a : α) : Plain (Outcome.ok a) := ⟨by simp, by simp⟩

theorem plain_err {m : String} (h : Apart m) : Plain (Outcome.err m : Outcome α) :=
  ⟨by simp, fun a heq => h.ne_cycleError a (Outcome.err.inj heq)⟩

theorem plain_bind {x : Outcome α} {f : α → Outcome β} (hx : Plain x) (hf : ∀ a, Plain (f a)) :
    Plain (x >>= f) := by
  cases x with
  | ok a => exact hf a
  | err m => exact ⟨by simp, fun a heq => hx.guard a (by rw [Outcome.err.inj heq])⟩
  | panic r => exact ⟨fun heq => hx.budget (by rw [Outcome.panic.inj heq]), by simp⟩

theorem plain_toFloat (v : Value) : Plain (Outcome.ofExcept (toFloat v)) := by
  cases v with
  | num f => exact plain_ok f
  | int n => exact plain_ok _
  | int64 n => exact plain_ok _
  | bool b => exact plain_ok _
  | str s =>
    unfold toFloat
    dsimp only
    cases parseFloat (trimSpace s) with
    | ok f => exact plain_ok f
    | error m =>
      apply plain_err
      rw [String.append_assoc]
      exact apart_append (c := 'c') (by decide) (by decide) _
  | nil => exact plain_err (by unfold Apart; decide)
  | other text =>
    apply plain_err
    rw [String.append_assoc]
    exact apart_append (c := 'c') (by decide) (by decide) _

theorem plain_arith (op : BinOp) (a b : Float64) : Plain (arith op a b) := by
  cases op with
  | add | sub | mul => exact plain_ok _
  | div =>
    rw [arith]
    split
    · exact plain_err (by unfold Apart; decide)
    · exact plain_ok _
  | mod =>
    rw [arith, intMod]
    split
    · exact plain_err (by unfold Apart; decide)
    · split
      · exact ⟨fun h => absurd (Outcome.panic.inj h) (by decide), fun a h => by cases h⟩
      · exact plain_ok _

theorem plain_applyOp (op : BinOp) (left right : Value) : Plain (applyOp op left right) := by
  have hcoerced : Plain (coerced op left right) :=
    plain_bind (plain_toFloat left) fun a => plain_bind (plain_toFloat right) fun b =>
      plain_arith op a b
  unfold applyOp
  split
  · split
    · exact plain_ok _
    · exact plain_ok _
    · exact hcoerced
  · exact hcoerced

theorem plain_negate (v : Value) : Plain (negate v) :=
  plain_bind (plain_toFloat v) fun _ => plain_ok _

end

/-! ## The messages of a tree -/

/-- The errors of the parse are none of the guard. -/
def Expr.Apart : Expr → Prop
  | .lit _ | .ref _ | .exhausted => True
  | .neg e => e.Apart
  | .bin _ l r => l.Apart ∧ r.Apart
  | .fail m => Scheduler.Apart m
  | .andFail e m => e.Apart ∧ Scheduler.Apart m

theorem apart_unexpected (s : List Char) : Apart (unexpected s) := by
  rw [unexpected, String.append_assoc]
  exact apart_append (c := 'u') (by decide) (by decide) _

/-- A continuation that parses on from a tree without such a message. -/
private def KeepsApart (k : Expr → List Char → TreeParsed) : Prop :=
  ∀ e s, e.Apart → (k e s).1.Apart

private theorem apart_treeThen {k : Expr → List Char → TreeParsed} {p : TreeParsed}
    (hk : KeepsApart k) (hp : p.1.Apart) : (treeThen k p).1.Apart := by
  obtain ⟨e, rest⟩ := p
  cases rest with
  | none => exact hp
  | some rest => exact hk e rest hp

private theorem apart_treeClose : KeepsApart treeClose := by
  intro e s he
  unfold treeClose
  split
  · exact he
  · exact ⟨he, by unfold Apart; decide⟩

private theorem apart_treeRef (s : List Char) : (treeRef s).1.Apart := by
  unfold treeRef
  dsimp only
  split
  · show Apart _
    unfold Apart
    decide
  · trivial

private theorem apart_treeLiteral (c : Char) (s : List Char) : (treeLiteral c s).1.Apart := by
  unfold treeLiteral
  split
  · split
    · trivial
    · show Apart _
      unfold Apart
      decide
  · split
    · split
      · trivial
      · rename_i m _ hnumber
        show Apart m
        unfold parseNumber at hnumber
        dsimp only at hnumber
        split at hnumber
        · cases hnumber
        · obtain rfl := Except.error.inj (Prod.mk.inj hnumber).1
          exact apart_append (c := 'i') (by decide) (by decide) _
    · exact apart_unexpected _

private theorem apart_turn {ops : Char → Option BinOp} {sub : List Char → TreeParsed}
    {loop : Expr → List Char → TreeParsed} (hs : ∀ s, (sub s).1.Apart) (hl : KeepsApart loop) :
    KeepsApart fun left s => match skipSpace s with
      | [] => (left, some [])
      | c :: rest => match ops c with
        | none => (left, some (c :: rest))
        | some op => match sub rest with
          | (right, some rest) => loop (.bin op left right) rest
          | (right, none) => (.bin op left right, none) := by
  intro left s he
  dsimp only
  cases skipSpace s with
  | nil => exact he
  | cons c rest =>
    dsimp only
    cases ops c with
    | none => exact he
    | some op =>
      dsimp only
      have hr := hs rest
      generalize sub rest = p at hr
      obtain ⟨right, rest'⟩ := p
      cases rest' with
      | none => exact ⟨he, hr⟩
      | some rest' => exact hl _ _ ⟨he, hr⟩

private theorem apart_all (n : Nat) :
    (∀ s, (treeExpr n s).1.Apart) ∧ KeepsApart (treeExprLoop n) ∧
    (∀ s, (treeTerm n s).1.Apart) ∧ KeepsApart (treeTermLoop n) ∧
    (∀ s, (treeFactor n s).1.Apart) := by
  induction n with
  | zero =>
    exact ⟨fun _ => trivial, fun _ _ he => ⟨he, trivial⟩, fun _ => trivial,
      fun _ _ he => ⟨he, trivial⟩, fun _ => trivial⟩
  | succ n ih =>
    obtain ⟨hexpr, hexprLoop, hterm, htermLoop, hfactor⟩ := ih
    refine ⟨fun s => apart_treeThen hexprLoop (hterm s), apart_turn hterm hexprLoop,
      fun s => apart_treeThen htermLoop (hfactor s), apart_turn hfactor htermLoop, fun s => ?_⟩
    unfold treeFactor
    split
    · show Apart _
      unfold Apart
      decide
    · rename_i c rest _
      split
      · exact hfactor rest
      · split
        · exact apart_treeThen apart_treeClose (hexpr rest)
        · split
          · exact apart_treeRef rest
          · exact apart_treeLiteral c rest

theorem apart_parseTree (src : List Char) : (parseTree src).Apart := by
  unfold parseTree
  dsimp only
  have h := (apart_all (parseBudget (skipSpace src))).1 (skipSpace src)
  generalize treeExpr (parseBudget (skipSpace src)) (skipSpace src) = p at h
  obtain ⟨e, rest⟩ := p
  cases rest with
  | none => exact h
  | some rest =>
    dsimp only
    cases skipSpace rest with
    | nil => exact h
    | cons c rest => exact ⟨h, apart_unexpected _⟩

/-! ## Evaluation of a tree -/

theorem eval_ne_exhausted {r : String → Outcome Value} (hr : ∀ name, r name ≠ .panic outOfBudget)
    {e : Expr} (hc : e.Complete) : e.eval r ≠ .panic outOfBudget := by
  induction e with
  | lit v => exact (plain_ok v).budget
  | ref name => exact hr name
  | neg e ih =>
    rw [Expr.eval, Ne, Outcome.bind_eq_panic]
    rintro (h | ⟨v, -, h⟩)
    · exact ih hc h
    · exact (plain_negate v).budget h
  | bin op l r ihl ihr =>
    rw [Expr.eval, Ne, Outcome.bind_eq_panic]
    rintro (h | ⟨lv, -, h⟩)
    · exact ihl hc.1 h
    · rcases Outcome.bind_eq_panic.mp h with h | ⟨rv, -, h⟩
      · exact ihr hc.2 h
      · exact (plain_applyOp op lv rv).budget h
  | fail m => simp [Expr.eval]
  | andFail e m ih =>
    rw [Expr.eval, Ne, Outcome.bind_eq_panic]
    rintro (h | ⟨v, -, h⟩)
    · exact ih hc h
    · cases h
  | exhausted => exact hc.elim

section

variable {scope : AttrScope} {visiting : Finset String}

/-- The guard fails in a tree exactly where one of its references comes to an open name. -/
theorem eval_eq_cycle
    (hr : ∀ name a, (scope.resolveGuarded name visiting).1 = .err (Guarded.cycleError a) ↔
      ReachesOpen scope visiting (.ref name) a)
    {e : Expr} (he : e.Apart) (a : String) :
    e.eval (fun name => (scope.resolveGuarded name visiting).1) = .err (Guarded.cycleError a) ↔
      ReachesOpen scope visiting e a := by
  induction e with
  | lit v =>
    refine iff_of_false ((plain_ok v).guard a) ?_
    rintro ⟨⟩
  | ref name => exact hr name a
  | neg e ih =>
    rw [Expr.eval, Outcome.bind_eq_err, ih he]
    constructor
    · rintro (h | ⟨v, -, h⟩)
      · exact .neg h
      · exact absurd h ((plain_negate v).guard a)
    · rintro ⟨⟩
      rename_i h
      exact .inl h
  | bin op l r ihl ihr =>
    rw [Expr.eval, Outcome.bind_eq_err, ihl he.1]
    constructor
    · rintro (h | ⟨lv, hl, h⟩)
      · exact .left h
      · rcases Outcome.bind_eq_err.mp h with h | ⟨rv, -, h⟩
        · exact .right hl ((ihr he.2).mp h)
        · exact absurd h ((plain_applyOp op lv rv).guard a)
    · intro h
      cases h with
      | left h => exact .inl h
      | right hl h => exact .inr ⟨_, hl, Outcome.bind_eq_err.mpr (.inl ((ihr he.2).mpr h))⟩
  | fail m =>
    refine iff_of_false ((plain_err he).guard a) ?_
    rintro ⟨⟩
  | andFail e m ih =>
    rw [Expr.eval, Outcome.bind_eq_err, ih he.1]
    constructor
    · rintro (h | ⟨v, -, h⟩)
      · exact .andFail h
      · exact absurd h ((plain_err he.2).guard a)
    · rintro ⟨⟩
      rename_i h
      exact .inl h
  | exhausted =>
    refine iff_of_false (by simp [Expr.eval]) ?_
    rintro ⟨⟩

end

/-! ## Resolution -/

/-- The error of a file is none of the guard, as a built-in attribute is. -/
theorem plain_readBuiltinAttribute {deps : String → ServerView} {serverID : String}
    (hfile : ∀ a, (deps serverID).properties ≠ .error (Guarded.cycleError a)) (name : String) :
    Plain (Outcome.ofExcept (readBuiltinAttribute deps serverID name)) := by
  unfold readBuiltinAttribute
  dsimp only
  split
  case h_8 | h_9 | h_10 | h_11 | h_12 =>
    cases (deps serverID).config with
    | error e => exact plain_err (apart_append (c := 'c') (by decide) (by decide) _)
    | ok _ =>
      dsimp only
      cases hprops : (deps serverID).properties with
      | error e =>
        refine ⟨by simp [Except.map, Outcome.ofExcept], fun a h => hfile a ?_⟩
        rw [hprops, Outcome.err.inj h]
      | ok props => exact plain_ok _
  case h_13 => exact plain_err (apart_append (c := 'u') (by decide) (by decide) _)
  all_goals exact plain_ok _

section

variable {scope : AttrScope}

/-- What a reference does: a custom attribute is evaluated with its name open. -/
theorem resolveGuarded_eq (name : String) (visiting : Finset String) :
    (scope.resolveGuarded name visiting).1 =
      match scope.custom.lookup name with
      | some expr =>
        if name ∈ visiting then .err (Guarded.cycleError name)
        else resolveCustomValue
          (fun other => (scope.resolveGuarded other (insert name visiting)).1) expr
      | none => .ofExcept (readBuiltinAttribute scope.deps scope.serverID name) := by
  have hunder := @Guarded.under_succ scope scope.custom.entries.length visiting name
  refine (show (scope.resolveGuarded name visiting).1 = _ from hunder).trans ?_
  cases hraw : scope.custom.lookup name with
  | none => rfl
  | some expr =>
    by_cases hopen : name ∈ visiting
    · simp only [if_pos hopen]
    · have hlt := Guarded.card_closed_insert_lt hraw hopen
      have hbudget := @Guarded.card_closed_lt_budget scope visiting
      have hnext : Guarded.under scope scope.custom.entries.length (insert name visiting) =
          Guarded.under scope (resolveBudget scope) (insert name visiting) := by
        unfold resolveBudget at *
        exact Guarded.under_eq_of_lt (by omega) (by omega)
      simp only [if_neg hopen, hnext]
      rfl

/-- With the guard set empty this is the resolution of a scope. -/
theorem resolve_eq_resolveGuarded (name : String) :
    scope.resolve name = (scope.resolveGuarded name ∅).1 := by
  have hsame : ∀ (n : Nat) (visiting : List String) (name : String),
      resolveIn scope n visiting name = Guarded.under scope n visiting.toFinset name := by
    intro n
    induction n with
    | zero => exact fun _ _ => rfl
    | succ n ih =>
      intro visiting name
      rw [resolveIn, Guarded.under_succ]
      have hnext : resolveIn scope n (name :: visiting) =
          Guarded.under scope n (insert name visiting.toFinset) := by
        ext1 other
        rw [ih, List.toFinset_cons]
      simp only [List.mem_toFinset, hnext]
      rfl
  exact hsame (resolveBudget scope) [] name

theorem resolveGuarded_ne_exhausted (visiting : Finset String) (name : String) :
    (scope.resolveGuarded name visiting).1 ≠ .panic outOfBudget := by
  induction hcard : (Guarded.closed scope visiting).card using Nat.strong_induction_on
    generalizing visiting name with
  | _ m ih =>
    rw [resolveGuarded_eq]
    cases hraw : scope.custom.lookup name with
    | none => cases readBuiltinAttribute scope.deps scope.serverID name <;> simp [Outcome.ofExcept]
    | some expr =>
      by_cases hopen : name ∈ visiting
      · simp [hopen]
      · have hlt := Guarded.card_closed_insert_lt hraw hopen
        simp only [if_neg hopen]
        unfold resolveCustomValue
        cases customBody expr with
        | none => dsimp only; cases parseFloat (trimSpace expr) <;> simp
        | some body =>
          dsimp only
          rw [evalChars_eq_eval]
          exact eval_ne_exhausted (fun other => ih _ (hcard ▸ hlt) _ other rfl)
            (complete_parseTree body)

theorem resolveGuarded_eq_cycle
    (hfile : ∀ a, (scope.deps scope.serverID).properties ≠ .error (Guarded.cycleError a))
    (visiting : Finset String) (name a : String) :
    (scope.resolveGuarded name visiting).1 = .err (Guarded.cycleError a) ↔
      ReachesOpen scope visiting (.ref name) a := by
  induction hcard : (Guarded.closed scope visiting).card using Nat.strong_induction_on
    generalizing visiting name a with
  | _ m ih =>
    rw [resolveGuarded_eq]
    cases hraw : scope.custom.lookup name with
    | none =>
      refine iff_of_false ((plain_readBuiltinAttribute hfile name).guard a) fun h => ?_
      cases h with
      | here hcustom => simp [AttrScope.isCustom, hraw] at hcustom
      | ref hraw' => simp [hraw] at hraw'
    | some expr =>
      by_cases hopen : name ∈ visiting
      · simp only [if_pos hopen]
        constructor
        · intro h
          obtain rfl := cycleError_injective (Outcome.err.inj h)
          exact .here (by simp [AttrScope.isCustom, hraw]) hopen
        · intro h
          cases h with
          | here => rfl
          | ref _ hclosed => exact absurd hopen hclosed
      · have hlt := Guarded.card_closed_insert_lt hraw hopen
        simp only [if_neg hopen]
        unfold resolveCustomValue
        cases hbody : customBody expr with
        | none =>
          refine iff_of_false ?_ fun h => ?_
          · dsimp only
            cases parseFloat (trimSpace expr) <;> simp
          · cases h with
            | here _ hmem => exact hopen hmem
            | ref hraw' _ hbody' =>
              rw [hraw, Option.some.injEq] at hraw'
              simp [← hraw', hbody] at hbody'
        | some body =>
          dsimp only
          rw [evalChars_eq_eval,
            eval_eq_cycle (fun other a => ih _ (hcard ▸ hlt) _ other a rfl) (apart_parseTree body)]
          constructor
          · exact .ref hraw hopen hbody
          · intro h
            cases h with
            | here _ hmem => exact absurd hmem hopen
            | ref hraw' _ hbody' h =>
              rw [hraw, Option.some.injEq] at hraw'
              obtain rfl := hraw'
              rw [hbody, Option.some.injEq] at hbody'
              obtain rfl := hbody'
              exact h

end

/-- For every table of custom attributes, whatever names are open: a resolution ends, more budget
changes nothing, it fails as a cycle exactly where evaluation comes to an open name, and it leaves
the guard set as it was. An error of reading `server.properties` names the file and is none of
the guard. -/
theorem resolveGuarded_detects_cycles (scope : AttrScope)
    (hfile : ∀ a, (scope.deps scope.serverID).properties ≠ .error (Guarded.cycleError a))
    (visiting : Finset String) (name : String) :
    (scope.resolveGuarded name visiting).1 ≠ .panic outOfBudget ∧
    (∀ n, resolveBudget scope ≤ n →
      Guarded.resolve scope n name visiting = scope.resolveGuarded name visiting) ∧
    (∀ a, (scope.resolveGuarded name visiting).1 = .err (Guarded.cycleError a) ↔
      ReachesOpen scope visiting (.ref name) a) ∧
    (scope.resolveGuarded name visiting).2 = visiting := by
  refine ⟨resolveGuarded_ne_exhausted visiting name, fun n hn => ?_,
    resolveGuarded_eq_cycle hfile visiting name, Guarded.resolve_restores _ name visiting⟩
  have hbudget := @Guarded.card_closed_lt_budget scope visiting
  have hunder := Guarded.under_eq_of_lt (hbudget.trans_le hn) hbudget
  exact Prod.ext (congrFun hunder name)
    ((Guarded.resolve_restores _ name visiting).trans
      (Guarded.resolve_restores _ name visiting).symm)

/-- Two attributes that refer to each other. -/
def mutualScope : AttrScope :=
  { plainScope with custom := GoMap.ofList [("a", "@b + 1"), ("b", "@a")] }

/-- Resolving the first of them comes back to it. -/
theorem reachesOpen_mutualScope : ReachesOpen mutualScope ∅ (.ref "a") "a" := by
  have hmessage : Apart "server not found" := by
    unfold Apart
    decide
  have hfile : ∀ a, (mutualScope.deps mutualScope.serverID).properties ≠
      .error (Guarded.cycleError a) :=
    fun a h => hmessage.ne_cycleError a (Except.error.inj h)
  exact ((resolveGuarded_detects_cycles mutualScope hfile ∅ "a").2.2.1 "a").mp
    (by decide +kernel)

end Konnekt.Scheduler
