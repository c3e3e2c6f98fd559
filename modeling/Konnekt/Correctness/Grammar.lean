import Mathlib.Data.List.DropRight
import Konnekt.Correctness.Arithmetic
import Konnekt.Scheduler.ExprPanics

/-!
# Evaluation and the grammar

The parser reads every text of the language as its tree, and a text that it reads to the end
is one of the language. So evaluation computes the usual reading, and what it rejects is
what the grammar does not have.
-/

namespace Konnekt.Scheduler

open Go

/-! ## Tokens -/

theorem skipSpace_eq (s : List Char) : skipSpace s = s.dropWhile isBlank := rfl

theorem skipSpace_append {sp : List Char} (h : Spaces sp) (s : List Char) :
    skipSpace (sp ++ s) = skipSpace s := by
  rw [skipSpace_eq, skipSpace_eq, List.dropWhile_append_of_pos h]

theorem skipSpace_cons {c : Char} (h : isBlank c = false) (s : List Char) :
    skipSpace (c :: s) = c :: s := by
  rw [skipSpace_eq, List.dropWhile_cons_of_neg (by simp [h])]

/-- The text behind a token does not go on with it. -/
def Breaks (rest : List Char) : Prop := ∀ c, rest.head? = some c → isRefChar c = false

theorem Breaks.nil : Breaks [] := fun _ h => nomatch h

theorem breaks_cons {c : Char} (h : isRefChar c = false) (s : List Char) : Breaks (c :: s) := by
  intro d hd
  rwa [← Option.some.inj hd]

/-- The characters that no token of several characters goes on with. -/
theorem isRefChar_of_isBlank {c : Char} (h : isBlank c = true) : isRefChar c = false := by
  simp only [isBlank, Bool.or_eq_true, beq_iff_eq] at h
  rcases h with (rfl | rfl) | rfl <;> decide

theorem isRefChar_of_mulOp {c : Char} {op : BinOp} (h : mulOp c = some op) :
    isRefChar c = false := by
  unfold mulOp at h
  split at h
  all_goals first | decide | cases h

theorem isRefChar_of_addOp {c : Char} {op : BinOp} (h : addOp c = some op) :
    isRefChar c = false := by
  unfold addOp at h
  split at h
  all_goals first | decide | cases h

theorem breaks_append {sp s : List Char} (hsp : Spaces sp) (hs : Breaks s) : Breaks (sp ++ s) := by
  cases sp with
  | nil => exact hs
  | cons c sp => exact breaks_cons (isRefChar_of_isBlank (hsp c List.mem_cons_self)) _

theorem isRefChar_of_isNumberChar {c : Char} (h : isNumberChar c = true) : isRefChar c = true := by
  simp only [isNumberChar, Bool.or_eq_true, beq_iff_eq] at h
  rcases h with h | h <;> simp [isRefChar, h]

/-- A maximal run of characters is taken whole. -/
theorem takeWhile_append_of_breaks {p : Char → Bool} {text rest : List Char}
    (htext : ∀ c ∈ text, p c = true) (hrest : ∀ c, rest.head? = some c → p c = false) :
    (text ++ rest).takeWhile p = text ∧ (text ++ rest).dropWhile p = rest := by
  rw [List.takeWhile_append_of_pos htext, List.dropWhile_append_of_pos htext]
  cases rest with
  | nil => simp
  | cons c rest => simp [hrest c rfl]

/-! ## A text of the language is read as its tree -/

/-- Behind the text comes no operator of a term. -/
def NoMul (rest : List Char) : Prop := ∀ c s, skipSpace rest = c :: s → mulOp c = none

/-- Behind the text comes no operator at all. -/
def NoAdd (rest : List Char) : Prop := ∀ c s, skipSpace rest = c :: s → addOp c = none

/-- How the parser reads a text of a level, whatever it comes upon behind it. -/
def Reads : Level → Expr → List Char → Prop
  | .factor, e, body => ∀ n sp rest, Spaces sp → Breaks rest →
    3 * (sp.length + body.length) + 1 ≤ n → treeFactor n (sp ++ body ++ rest) = (e, some rest)
  | .term, e, body => ∀ n sp rest, Spaces sp → Breaks rest →
    3 * (sp.length + body.length) + 2 ≤ n →
      ∃ m, n ≤ m + 1 + body.length ∧ treeTerm n (sp ++ body ++ rest) = treeTermLoop m e rest
  | .expr, e, body => ∀ n sp rest, Spaces sp → Breaks rest → NoMul rest →
    3 * (sp.length + body.length) + 3 ≤ n →
      ∃ m, n ≤ m + 1 + body.length ∧ treeExpr n (sp ++ body ++ rest) = treeExprLoop m e rest

theorem skipSpace_skipSpace (s : List Char) : skipSpace (skipSpace s) = skipSpace s := by
  rw [skipSpace_eq, skipSpace_eq, List.dropWhile_idempotent]

theorem treeTermLoop_of_noMul {n : Nat} (hn : n ≠ 0) (e : Expr) {rest : List Char}
    (h : NoMul rest) : treeTermLoop n e rest = (e, some (skipSpace rest)) := by
  obtain ⟨n, rfl⟩ := Nat.exists_eq_succ_of_ne_zero hn
  rw [treeTermLoop]
  cases hrest : skipSpace rest with
  | nil => rfl
  | cons c s => simp only [h c s hrest]

theorem treeExprLoop_of_noAdd {n : Nat} (hn : n ≠ 0) (e : Expr) {rest : List Char}
    (h : NoAdd rest) : treeExprLoop n e rest = (e, some (skipSpace rest)) := by
  obtain ⟨n, rfl⟩ := Nat.exists_eq_succ_of_ne_zero hn
  rw [treeExprLoop]
  cases hrest : skipSpace rest with
  | nil => rfl
  | cons c s => simp only [h c s hrest]

theorem treeExprLoop_skipSpace (n : Nat) (e : Expr) (rest : List Char) :
    treeExprLoop n e (skipSpace rest) = treeExprLoop n e rest := by
  cases n with
  | zero => rfl
  | succ n => rw [treeExprLoop, treeExprLoop, skipSpace_skipSpace]

theorem isBlank_of_mulOp {c : Char} {op : BinOp} (h : mulOp c = some op) : isBlank c = false := by
  unfold mulOp at h
  split at h
  all_goals first | decide | cases h

theorem isBlank_of_addOp {c : Char} {op : BinOp} (h : addOp c = some op) : isBlank c = false := by
  unfold addOp at h
  split at h
  all_goals first | decide | cases h

theorem mulOp_of_addOp {c : Char} {op : BinOp} (h : addOp c = some op) : mulOp c = none := by
  unfold addOp at h
  split at h
  all_goals first | decide | cases h

theorem noMul_append {sp : List Char} (hsp : Spaces sp) {c : Char} (hblank : isBlank c = false)
    (hc : mulOp c = none) (s : List Char) : NoMul (sp ++ c :: s) := by
  intro d t h
  rw [skipSpace_append hsp, skipSpace_cons hblank] at h
  rwa [← (List.cons.inj h).1]

theorem noAdd_append {sp : List Char} (hsp : Spaces sp) {c : Char} (hblank : isBlank c = false)
    (hc : addOp c = none) (s : List Char) : NoAdd (sp ++ c :: s) := by
  intro d t h
  rw [skipSpace_append hsp, skipSpace_cons hblank] at h
  rwa [← (List.cons.inj h).1]

/-- The first character of a factor decides what it is. -/
theorem treeFactor_cons (n : Nat) {sp : List Char} (hsp : Spaces sp) {c : Char}
    (hc : isBlank c = false) (s : List Char) :
    treeFactor (n + 1) (sp ++ c :: s) =
      if c = '-' then (.neg (treeFactor n s).1, (treeFactor n s).2)
      else if c = '(' then treeThen treeClose (treeExpr n s)
      else if c = '@' then treeRef s
      else treeLiteral c s := by
  rw [treeFactor, skipSpace_append hsp, skipSpace_cons hc]

theorem treeLiteral_number {f : Float64} {c : Char} {text rest : List Char}
    (hchars : ∀ d ∈ c :: text, isNumberChar d = true)
    (hf : parseFloat (String.ofList (c :: text)) = .ok f) (hrest : Breaks rest) :
    treeLiteral c (text ++ rest) = (.lit (.num f), some rest) := by
  have hnumber : ∀ d, rest.head? = some d → isNumberChar d = false := by
    intro d hd
    cases hn : isNumberChar d with
    | false => rfl
    | true => rw [← hrest d hd, isRefChar_of_isNumberChar hn]
  obtain ⟨htake, hdrop⟩ := takeWhile_append_of_breaks hchars hnumber
  have hc := hchars c List.mem_cons_self
  have hquote : ¬ (c = '"' ∨ c = '\'') := by
    rintro (rfl | rfl) <;> exact absurd hc (by decide)
  rw [treeLiteral, if_neg hquote, if_pos hc, parseNumber, ← List.cons_append, htake, hdrop, hf]

theorem treeLiteral_string {q : Char} (hq : q = '"' ∨ q = '\'') {text : List Char}
    (htext : q ∉ text) (rest : List Char) :
    treeLiteral q (text ++ q :: rest) = (.lit (.str (String.ofList text)), some rest) := by
  have hchars : ∀ d ∈ text, (decide (d ≠ q)) = true := by
    intro d hd
    simp only [decide_eq_true_eq]
    exact fun h => htext (h ▸ hd)
  obtain ⟨htake, hdrop⟩ := @takeWhile_append_of_breaks (fun d => decide (d ≠ q)) text (q :: rest)
    hchars (by simp)
  rw [treeLiteral, if_pos hq, parseString, hdrop, htake]

theorem treeRef_name {name : List Char} (hne : name ≠ []) (hchars : ∀ c ∈ name, isRefChar c = true)
    {rest : List Char} (hrest : Breaks rest) :
    treeRef (name ++ rest) = (.ref (String.ofList name), some rest) := by
  obtain ⟨htake, hdrop⟩ := takeWhile_append_of_breaks hchars hrest
  rw [treeRef, htake, hdrop]
  simp [hne]

theorem isBlank_of_isNumberChar {c : Char} (h : isNumberChar c = true) : isBlank c = false := by
  cases hb : isBlank c with
  | false => rfl
  | true =>
    have href := isRefChar_of_isNumberChar h
    rw [isRefChar_of_isBlank hb] at href
    cases href

theorem reads_of_prints {level : Level} {e : Expr} {body : List Char} (h : Prints level e body) :
    Reads level e body := by
  induction h with
  | @num f text hne hchars hf =>
    intro n sp rest hsp hrest hn
    obtain ⟨n, rfl⟩ := Nat.exists_eq_succ_of_ne_zero (by omega : n ≠ 0)
    cases text with
    | nil => exact absurd rfl hne
    | cons c text =>
      have hc := hchars c List.mem_cons_self
      have hother : c ≠ '-' ∧ c ≠ '(' ∧ c ≠ '@' := by
        refine ⟨?_, ?_, ?_⟩ <;> (rintro rfl; exact absurd hc (by decide))
      rw [List.append_assoc, List.cons_append, treeFactor_cons n hsp (isBlank_of_isNumberChar hc),
        if_neg hother.1, if_neg hother.2.1, if_neg hother.2.2]
      exact treeLiteral_number hchars hf hrest
  | @str q text hq htext =>
    intro n sp rest hsp hrest hn
    obtain ⟨n, rfl⟩ := Nat.exists_eq_succ_of_ne_zero (by omega : n ≠ 0)
    have hblank : isBlank q = false := by rcases hq with rfl | rfl <;> decide
    have hother : q ≠ '-' ∧ q ≠ '(' ∧ q ≠ '@' := by rcases hq with rfl | rfl <;> decide
    rw [List.append_assoc, List.cons_append, treeFactor_cons n hsp hblank,
      if_neg hother.1, if_neg hother.2.1, if_neg hother.2.2, List.append_assoc,
      List.singleton_append]
    exact treeLiteral_string hq htext rest
  | @ref name hne hchars =>
    intro n sp rest hsp hrest hn
    obtain ⟨n, rfl⟩ := Nat.exists_eq_succ_of_ne_zero (by omega : n ≠ 0)
    rw [List.append_assoc, List.cons_append, treeFactor_cons n hsp (by decide),
      if_neg (by decide), if_neg (by decide), if_pos rfl]
    exact treeRef_name hne hchars hrest
  | @neg e sp' body hsp' h ih =>
    intro n sp rest hsp hrest hn
    simp only [List.length_cons, List.length_append] at hn
    obtain ⟨n, rfl⟩ := Nat.exists_eq_succ_of_ne_zero (by omega : n ≠ 0)
    have hinner := ih n sp' rest hsp' hrest (by omega)
    rw [List.append_assoc, List.cons_append, treeFactor_cons n hsp (by decide), if_pos rfl, hinner]
  | @paren e sp' body sp'' hsp' h hsp'' ih =>
    intro n sp rest hsp hrest hn
    simp only [List.length_cons, List.length_append] at hn
    obtain ⟨n, rfl⟩ := Nat.exists_eq_succ_of_ne_zero (by omega : n ≠ 0)
    have hclose : Breaks (sp'' ++ ')' :: rest) :=
      breaks_append hsp'' (breaks_cons (by decide) rest)
    obtain ⟨m, hm, hinner⟩ := ih n sp' (sp'' ++ ')' :: rest) hsp' hclose
      (noMul_append hsp'' (by decide) (by decide) rest) (by omega)
    rw [List.append_assoc, List.cons_append, treeFactor_cons n hsp (by decide),
      if_neg (by decide), if_pos rfl]
    simp only [List.append_assoc, List.singleton_append] at hinner ⊢
    rw [hinner, treeExprLoop_of_noAdd (by omega) e
      (noAdd_append hsp'' (by decide) (by decide) rest), treeThen, treeClose,
      skipSpace_skipSpace, skipSpace_append hsp'', skipSpace_cons (by decide)]
    rfl
  | @factor e body h ih =>
    intro n sp rest hsp hrest hn
    obtain ⟨n, rfl⟩ := Nat.exists_eq_succ_of_ne_zero (by omega : n ≠ 0)
    refine ⟨n, by omega, ?_⟩
    rw [treeTerm, ih n sp rest hsp hrest (by omega), treeThen]
  | @mul c op l r lbody rbody sp₁ sp₂ hop hl hsp₁ hsp₂ hr ihl ihr =>
    intro n sp rest hsp hrest hn
    simp only [List.length_append, List.length_cons] at hn
    have hc : Breaks (sp₁ ++ c :: (sp₂ ++ rbody ++ rest)) :=
      breaks_append hsp₁ (breaks_cons (isRefChar_of_mulOp hop) _)
    obtain ⟨m, hm, hleft⟩ := ihl n sp _ hsp hc (by omega)
    obtain ⟨m, rfl⟩ := Nat.exists_eq_succ_of_ne_zero (by omega : m ≠ 0)
    refine ⟨m, by simp only [List.length_append, List.length_cons]; omega, ?_⟩
    have hright := ihr m sp₂ rest hsp₂ hrest (by omega)
    simp only [List.append_assoc, List.cons_append] at hleft hright ⊢
    rw [hleft, treeTermLoop, skipSpace_append hsp₁, skipSpace_cons (isBlank_of_mulOp hop)]
    simp only [hop, hright]
  | @term e body h ih =>
    intro n sp rest hsp hrest hmul hn
    obtain ⟨n, rfl⟩ := Nat.exists_eq_succ_of_ne_zero (by omega : n ≠ 0)
    obtain ⟨m, hm, hterm⟩ := ih n sp rest hsp hrest (by omega)
    refine ⟨n, by omega, ?_⟩
    rw [treeExpr, hterm, treeTermLoop_of_noMul (by omega) e hmul, treeThen, treeExprLoop_skipSpace]
  | @add c op l r lbody rbody sp₁ sp₂ hop hl hsp₁ hsp₂ hr ihl ihr =>
    intro n sp rest hsp hrest hmul hn
    simp only [List.length_append, List.length_cons] at hn
    have hc : Breaks (sp₁ ++ c :: (sp₂ ++ rbody ++ rest)) :=
      breaks_append hsp₁ (breaks_cons (isRefChar_of_addOp hop) _)
    obtain ⟨m, hm, hleft⟩ := ihl n sp _ hsp hc
      (noMul_append hsp₁ (isBlank_of_addOp hop) (mulOp_of_addOp hop) _) (by omega)
    obtain ⟨m, rfl⟩ := Nat.exists_eq_succ_of_ne_zero (by omega : m ≠ 0)
    refine ⟨m, by simp only [List.length_append, List.length_cons]; omega, ?_⟩
    obtain ⟨k, hk, hright⟩ := ihr m sp₂ rest hsp₂ hrest (by omega)
    simp only [List.append_assoc, List.cons_append] at hleft hright ⊢
    rw [hleft, treeExprLoop, skipSpace_append hsp₁, skipSpace_cons (isBlank_of_addOp hop)]
    simp only [hop, hright, treeTermLoop_of_noMul (by omega : k ≠ 0) r hmul,
      treeExprLoop_skipSpace]

/-! ## What is read to the end is a text of the language -/

theorem exists_spaces (s : List Char) : ∃ sp, Spaces sp ∧ s = sp ++ skipSpace s := by
  refine ⟨s.takeWhile isBlank, fun c hc => List.mem_takeWhile_imp hc, ?_⟩
  rw [skipSpace_eq, List.takeWhile_append_dropWhile]

theorem Spaces.append {sp sp' : List Char} (h : Spaces sp) (h' : Spaces sp') :
    Spaces (sp ++ sp') := by
  intro c hc
  rcases List.mem_append.mp hc with hc | hc
  · exact h c hc
  · exact h' c hc

theorem spaces_nil : Spaces [] := fun _ h => nomatch h

/-- What has been read from a text is one of the level. -/
def Finds (level : Level) (s : List Char) (p : TreeParsed) : Prop :=
  ∀ rest, p.2 = some rest → ∃ sp body sp', s = sp ++ body ++ sp' ++ rest ∧ Spaces sp ∧
    Spaces sp' ∧ Prints level p.1 body

/-- What has been read on from a text of the level is one of it. -/
def GoesOn (level : Level) (k : Expr → List Char → TreeParsed) : Prop :=
  ∀ e s body sp, Prints level e body → Spaces sp → ∀ rest, (k e s).2 = some rest →
    ∃ body' sp', body ++ sp ++ s = body' ++ sp' ++ rest ∧ Spaces sp' ∧
      Prints level (k e s).1 body'

theorem finds_treeThen {low high : Level} {k : Expr → List Char → TreeParsed} {s : List Char}
    {p : TreeParsed} (hp : Finds low s p) (hk : GoesOn high k)
    (hlevel : ∀ e body, Prints low e body → Prints high e body) :
    Finds high s (treeThen k p) := by
  obtain ⟨e, rest⟩ := p
  cases rest with
  | none => exact fun rest h => nomatch h
  | some rest =>
    intro rest' hrest'
    obtain ⟨sp, body, sp', rfl, hsp, hsp', hbody⟩ := hp rest rfl
    obtain ⟨body', sp'', happend, hsp'', hbody'⟩ :=
      hk e rest body sp' (hlevel e body hbody) hsp' rest' hrest'
    refine ⟨sp, body', sp'', ?_, hsp, hsp'', hbody'⟩
    simp only [List.append_assoc] at happend ⊢
    rw [happend]

/-- One turn of an operator loop. -/
theorem goesOn_turn {ops : Char → Option BinOp} {low high : Level}
    {sub : List Char → TreeParsed} {loop : Expr → List Char → TreeParsed}
    (hbin : ∀ {c op l r lbody rbody sp sp'}, ops c = some op → Prints high l lbody → Spaces sp →
      Spaces sp' → Prints low r rbody →
        Prints high (.bin op l r) (lbody ++ sp ++ c :: (sp' ++ rbody)))
    (hsub : ∀ s, Finds low s (sub s)) (hloop : GoesOn high loop) :
    GoesOn high fun left s => match skipSpace s with
      | [] => (left, some [])
      | c :: rest => match ops c with
        | none => (left, some (c :: rest))
        | some op => match sub rest with
          | (right, some rest) => loop (.bin op left right) rest
          | (right, none) => (.bin op left right, none) := by
  intro left s body sp hbody hsp rest hrest
  obtain ⟨sp₁, hsp₁, hs⟩ := exists_spaces s
  dsimp only at hrest ⊢
  cases hskip : skipSpace s with
  | nil =>
    rw [hskip] at hs hrest
    obtain rfl := Option.some.inj hrest
    refine ⟨body, sp ++ sp₁, ?_, hsp.append hsp₁, hbody⟩
    rw [hs]
    simp only [List.append_assoc]
  | cons c s' =>
    rw [hskip] at hs hrest
    dsimp only at hrest ⊢
    cases hop : ops c with
    | none =>
      rw [hop] at hrest
      obtain rfl := Option.some.inj hrest
      refine ⟨body, sp ++ sp₁, ?_, hsp.append hsp₁, hbody⟩
      rw [hs]
      simp only [List.append_assoc]
    | some op =>
      rw [hop] at hrest
      dsimp only at hrest ⊢
      have hfinds := hsub s'
      generalize sub s' = p at hfinds hrest
      obtain ⟨right, rest'⟩ := p
      cases rest' with
      | none => cases hrest
      | some rest' =>
        obtain ⟨sp₂, rbody, sp₃, rfl, hsp₂, hsp₃, hright⟩ := hfinds rest' rfl
        have hnew := hbin hop hbody (hsp.append hsp₁) hsp₂ hright
        obtain ⟨body', sp', happend, hsp', hbody'⟩ := hloop _ rest' _ sp₃ hnew hsp₃ rest hrest
        refine ⟨body', sp', ?_, hsp', hbody'⟩
        rw [← happend, hs]
        simp only [List.append_assoc, List.cons_append]

theorem finds_treeRef (s : List Char) : ∀ rest, (treeRef s).2 = some rest →
    ∃ body, '@' :: s = body ++ rest ∧ Prints .factor (treeRef s).1 body := by
  intro rest hrest
  unfold treeRef at hrest ⊢
  dsimp only at hrest ⊢
  by_cases hname : (s.takeWhile isRefChar).isEmpty
  · rw [if_pos hname] at hrest
    cases hrest
  · rw [if_neg hname] at hrest ⊢
    obtain rfl := Option.some.inj hrest
    refine ⟨'@' :: s.takeWhile isRefChar, ?_, .ref ?_ fun c hc => List.mem_takeWhile_imp hc⟩
    · rw [List.cons_append, List.takeWhile_append_dropWhile]
    · simpa using hname

theorem finds_treeLiteral (c : Char) (s : List Char) : ∀ rest, (treeLiteral c s).2 = some rest →
    ∃ body, c :: s = body ++ rest ∧ Prints .factor (treeLiteral c s).1 body := by
  intro rest hrest
  unfold treeLiteral at hrest ⊢
  by_cases hquote : c = '"' ∨ c = '\''
  · rw [if_pos hquote] at hrest ⊢
    unfold parseString at hrest ⊢
    cases hdrop : s.dropWhile (· ≠ c) with
    | nil =>
      rw [hdrop] at hrest
      cases hrest
    | cons d rest' =>
      rw [hdrop] at hrest
      obtain rfl := Option.some.inj hrest
      have hd : d = c := by
        have hhead := List.head?_dropWhile_not (fun x => decide (x ≠ c)) s
        rw [hdrop] at hhead
        simpa using hhead
      subst hd
      refine ⟨d :: (s.takeWhile (· ≠ d) ++ [d]), ?_, .str hquote ?_⟩
      · have hsplit := List.takeWhile_append_dropWhile (p := fun x => decide (x ≠ d)) (l := s)
        rw [hdrop] at hsplit
        simp only [List.cons_append, List.append_assoc, List.nil_append, hsplit]
      · intro hmem
        have hne := List.mem_takeWhile_imp hmem
        simp at hne
  · rw [if_neg hquote] at hrest ⊢
    by_cases hnumber : isNumberChar c = true
    · rw [if_pos hnumber] at hrest ⊢
      unfold parseNumber at hrest ⊢
      dsimp only at hrest ⊢
      cases hf : parseFloat (String.ofList ((c :: s).takeWhile isNumberChar)) with
      | error m =>
        rw [hf] at hrest
        cases hrest
      | ok f =>
        rw [hf] at hrest
        obtain rfl := Option.some.inj hrest
        refine ⟨(c :: s).takeWhile isNumberChar, ?_, .num ?_ ?_ hf⟩
        · rw [List.takeWhile_append_dropWhile]
        · simp [hnumber]
        · exact fun d hd => List.mem_takeWhile_imp hd
    · rw [if_neg hnumber] at hrest
      cases hrest

theorem finds_all (n : Nat) :
    (∀ s, Finds .expr s (treeExpr n s)) ∧ GoesOn .expr (treeExprLoop n) ∧
    (∀ s, Finds .term s (treeTerm n s)) ∧ GoesOn .term (treeTermLoop n) ∧
    (∀ s, Finds .factor s (treeFactor n s)) := by
  induction n with
  | zero =>
    exact ⟨fun _ _ h => (nomatch h), fun _ _ _ _ _ _ _ h => (nomatch h), fun _ _ h => (nomatch h),
      fun _ _ _ _ _ _ _ h => (nomatch h), fun _ _ h => (nomatch h)⟩
  | succ n ih =>
    obtain ⟨hexpr, hexprLoop, hterm, htermLoop, hfactor⟩ := ih
    refine ⟨fun s => finds_treeThen (hterm s) hexprLoop fun _ _ => .term,
      goesOn_turn .add hterm hexprLoop,
      fun s => finds_treeThen (hfactor s) htermLoop fun _ _ => .factor,
      goesOn_turn .mul hfactor htermLoop, fun s rest hrest => ?_⟩
    obtain ⟨sp, hsp, hs⟩ := exists_spaces s
    unfold treeFactor at hrest ⊢
    cases hskip : skipSpace s with
    | nil =>
      rw [hskip] at hrest
      cases hrest
    | cons c s' =>
      rw [hskip] at hs hrest
      dsimp only at hrest ⊢
      by_cases hminus : c = '-'
      · rw [if_pos hminus] at hrest ⊢
        obtain ⟨sp₁, body, sp₂, hs', hsp₁, hsp₂, hbody⟩ := hfactor s' rest hrest
        refine ⟨sp, '-' :: (sp₁ ++ body), sp₂, ?_, hsp, hsp₂, .neg hsp₁ hbody⟩
        rw [hs, hminus, hs']
        simp only [List.append_assoc, List.cons_append]
      · rw [if_neg hminus] at hrest ⊢
        by_cases hopen : c = '('
        · rw [if_pos hopen] at hrest ⊢
          have hfinds := hexpr s'
          generalize treeExpr n s' = p at hfinds hrest
          obtain ⟨e, rest'⟩ := p
          cases rest' with
          | none => cases hrest
          | some rest' =>
            obtain ⟨sp₁, body, sp₂, hs', hsp₁, hsp₂, hbody⟩ := hfinds rest' rfl
            obtain ⟨sp₃, hsp₃, hrest'⟩ := exists_spaces rest'
            unfold treeThen treeClose at hrest ⊢
            dsimp only at hrest ⊢
            split at hrest
            · rename_i rest'' hclose
              obtain rfl := Option.some.inj hrest
              rw [hclose] at hrest'
              refine ⟨sp, '(' :: (sp₁ ++ body ++ (sp₂ ++ sp₃) ++ [')']), [], ?_, hsp, spaces_nil,
                .paren hsp₁ hbody (hsp₂.append hsp₃)⟩
              rw [hs, hopen, hs', hrest']
              simp only [List.append_assoc, List.cons_append, List.nil_append]
            · cases hrest
        · rw [if_neg hopen] at hrest ⊢
          by_cases href : c = '@'
          · rw [if_pos href] at hrest ⊢
            obtain ⟨body, hbody, hprints⟩ := finds_treeRef s' rest hrest
            refine ⟨sp, body, [], ?_, hsp, spaces_nil, hprints⟩
            rw [hs, href, hbody, List.append_nil, List.append_assoc]
          · rw [if_neg href] at hrest ⊢
            obtain ⟨body, hbody, hprints⟩ := finds_treeLiteral c s' rest hrest
            refine ⟨sp, body, [], ?_, hsp, spaces_nil, hprints⟩
            rw [hs, hbody, List.append_nil, List.append_assoc]

/-! ## Parsing a whole text -/

theorem head_of_prints {level : Level} {e : Expr} {body : List Char} (h : Prints level e body) :
    ∃ c s, body = c :: s ∧ isBlank c = false := by
  induction h with
  | @num f text hne hchars hf =>
    cases text with
    | nil => exact absurd rfl hne
    | cons c text => exact ⟨c, text, rfl, isBlank_of_isNumberChar (hchars c List.mem_cons_self)⟩
  | @str q text hq htext => exact ⟨q, _, rfl, by rcases hq with rfl | rfl <;> decide⟩
  | ref => exact ⟨'@', _, rfl, by decide⟩
  | neg => exact ⟨'-', _, rfl, by decide⟩
  | paren => exact ⟨'(', _, rfl, by decide⟩
  | factor h ih => exact ih
  | term h ih => exact ih
  | mul hop hl hsp hsp' hr ihl ihr =>
    obtain ⟨c, s, rfl, hc⟩ := ihl
    exact ⟨c, _, rfl, hc⟩
  | add hop hl hsp hsp' hr ihl ihr =>
    obtain ⟨c, s, rfl, hc⟩ := ihl
    exact ⟨c, _, rfl, hc⟩

theorem skipSpace_spaces {sp : List Char} (h : Spaces sp) : skipSpace sp = [] := by
  have happend := skipSpace_append h []
  rwa [List.append_nil] at happend

/-- A text of the language is read as its tree. -/
theorem parseTree_of_printing {e : Expr} {src : List Char} (h : Printing e src) :
    parseTree src = e := by
  obtain ⟨sp, body, sp', rfl, hsp, hsp', hbody⟩ := h
  obtain ⟨c, s, hs, hc⟩ := head_of_prints hbody
  have hskip : skipSpace (sp ++ body ++ sp') = body ++ sp' := by
    rw [List.append_assoc, skipSpace_append hsp, hs, List.cons_append, skipSpace_cons hc]
  have hend : ∀ c s, skipSpace sp' = c :: s → False := by
    intro c s h
    rw [skipSpace_spaces hsp'] at h
    cases h
  have hbreaks : Breaks sp' := by
    have happend := breaks_append hsp' Breaks.nil
    rwa [List.append_nil] at happend
  have hread : Reads .expr e body := reads_of_prints hbody
  obtain ⟨m, hm, htree⟩ := hread (parseBudget (body ++ sp')) [] sp' spaces_nil hbreaks
    (fun c s h => (hend c s h).elim) (by
      rw [parseBudget, List.length_append, List.length_nil]
      omega)
  have hm0 : m ≠ 0 := by
    rw [parseBudget, List.length_append] at hm
    omega
  unfold parseTree
  dsimp only
  rw [hskip]
  rw [List.nil_append] at htree
  rw [htree, treeExprLoop_of_noAdd hm0 e fun c s h => (hend c s h).elim]
  dsimp only
  rw [skipSpace_skipSpace, skipSpace_spaces hsp']

/-- What is not in the language is read as a tree that ends in an error. -/
theorem stops_of_not_printing {src : List Char} (h : ¬ ∃ e, Printing e src) :
    (parseTree src).stops = true := by
  obtain ⟨sp, hsp, hsrc⟩ := exists_spaces src
  unfold parseTree
  dsimp only
  have hstuck := (stuck_all (parseBudget (skipSpace src))).1 (skipSpace src)
  have hfinds := (finds_all (parseBudget (skipSpace src))).1 (skipSpace src)
  generalize treeExpr (parseBudget (skipSpace src)) (skipSpace src) = p at hstuck hfinds
  obtain ⟨e, rest⟩ := p
  cases rest with
  | none => exact hstuck rfl
  | some rest =>
    dsimp only
    cases hskip : skipSpace rest with
    | cons c s => rfl
    | nil =>
      obtain ⟨sp₁, body, sp₂, hs, hsp₁, hsp₂, hbody⟩ := hfinds rest rfl
      obtain ⟨sp₃, hsp₃, hrest⟩ := exists_spaces rest
      rw [hskip, List.append_nil] at hrest
      refine absurd ⟨e, sp ++ sp₁, body, sp₂ ++ sp₃, ?_, hsp.append hsp₁, hsp₂.append hsp₃, hbody⟩ h
      rw [hsrc, hs, hrest]
      simp only [List.append_assoc]

theorem stops_of_prints {level : Level} {e : Expr} {body : List Char} (h : Prints level e body) :
    e.stops = false := by
  induction h with
  | num | str | ref => rfl
  | neg hsp h ih => exact ih
  | paren hsp h hsp' ih => exact ih
  | factor h ih => exact ih
  | term h ih => exact ih
  | mul hop hl hsp hsp' hr ihl ihr => exact ihr
  | add hop hl hsp hsp' hr ihl ihr => exact ihr

/-- The texts of the language are those whose tree does not end in an error. -/
theorem exists_printing_iff (src : List Char) :
    (∃ e, Printing e src) ↔ (parseTree src).stops = false := by
  constructor
  · rintro ⟨e, he⟩
    have htree := parseTree_of_printing he
    obtain ⟨sp, body, sp', -, -, -, hbody⟩ := he
    rw [htree, stops_of_prints hbody]
  · intro h
    by_contra hnot
    rw [stops_of_not_printing hnot] at h
    cases h

/-! ## Evaluation -/

section

variable {resolve : String → Outcome Value}

/-- Evaluating a tree stops the program exactly where one of its remainders or references does. -/
theorem panics_eval_iff {e : Expr} (hc : e.Complete) :
    (e.eval resolve).panics = true ↔ Crashes resolve e := by
  induction e with
  | lit v =>
    refine iff_of_false (by simp [Expr.eval, Outcome.panics]) ?_
    rintro ⟨⟩
  | ref name =>
    constructor
    · exact .ref
    · rintro ⟨h⟩
      exact h
  | neg e ih =>
    rw [Expr.eval, Outcome.panics_bind, ih hc]
    constructor
    · rintro (h | ⟨v, -, hv⟩)
      · exact .neg h
      · rw [panics_negate] at hv
        cases hv
    · intro h
      cases h with
      | neg h => exact .inl h
  | bin op l r ihl ihr =>
    simp only [Expr.eval, Outcome.panics_bind, ihl hc.1, ihr hc.2, panics_applyOp]
    constructor
    · rintro (h | ⟨lv, hl, h | ⟨rv, hr, d, hd, hzero⟩⟩)
      · exact .left h
      · exact .right hl h
      · obtain rfl : op = .mod := hd.1
        exact .here hl hr hd hzero
    · intro h
      cases h with
      | here hl hr hd hzero => exact .inr ⟨_, hl, .inr ⟨_, hr, _, hd, hzero⟩⟩
      | left h => exact .inl h
      | right hl h => exact .inr ⟨_, hl, .inl h⟩
  | fail m =>
    refine iff_of_false (by simp [Expr.eval, Outcome.panics]) ?_
    rintro ⟨⟩
  | andFail e m ih =>
    rw [Expr.eval, Outcome.panics_bind, ih hc]
    constructor
    · rintro (h | ⟨v, -, hv⟩)
      · exact .andFail h
      · cases hv
    · intro h
      cases h with
      | andFail h => exact .inl h
  | exhausted => exact hc.elim

/-- Evaluation returns what the usual reading of a text of the language is, and an error for any
other text. -/
structure FollowsGrammar (resolve : String → Outcome Value) (src : String) : Prop where
  value : ∀ e, Printing e src.toList →
    Returns (evalExpr resolve src) ∧ evalExpr resolve src = e.eval resolve
  rejects : (¬ ∃ e, Printing e src.toList) → ∃ m, evalExpr resolve src = .err m

end

end Konnekt.Scheduler
