import Konnekt.Scheduler.Attributes
import Konnekt.Text.Lexing

/-!
# Templates in configuration values

A string of a node's configuration may mention outputs of other nodes and
attributes. Three patterns are replaced one after the other, each over the text
the one before left behind; a string that is a single token keeps the type of
its value.
-/

namespace Konnekt.Scheduler

open Go Lexing

/-! ## The three patterns -/

/-- `\s` of the pattern language. -/
def isPatternSpace (c : Char) : Bool :=
  c == ' ' || c == '\t' || c == '\n' || c == '\r' || c == Char.ofNat 12

/-- `\w` of the pattern language. -/
def isWord (c : Char) : Bool := isAlpha c || isDigit c || c == '_'

/-- The characters of a node or port name, `[\w-]`. -/
def isNameChar (c : Char) : Bool := isWord c || c == '-'

/-- `[A-Za-z_]`. -/
def isIdentStart (c : Char) : Bool := isAlpha c || c == '_'

/-- A nonempty name and the text behind it. -/
def takeName (s : List Char) : Option (String × List Char) :=
  match s.takeWhile isNameChar with
  | [] => none
  | name => some (String.ofList name, s.dropWhile isNameChar)

/-- `reTemplate`, anchored: `{{ node.port }}`. -/
def reTemplate : Matcher Char (String × String)
  | '{' :: '{' :: s => do
    let (node, s₁) ← takeName (s.dropWhile isPatternSpace)
    match s₁ with
    | '.' :: s₂ => do
      let (port, s₃) ← takeName s₂
      match s₃.dropWhile isPatternSpace with
      | '}' :: '}' :: rest => some ((node, port), s.length + 2 - rest.length)
      | _ => none
    | _ => none
  | _ => none

/-- `[^}]*` and the brace behind it. -/
def untilBrace : List Char → Option (List Char)
  | [] => none
  | c :: s => if c = '}' then some [] else (c :: ·) <$> untilBrace s

/-- `reAttrExpr`, anchored: `@` and anything up to the next closing brace, in braces. -/
def reAttrExpr : Matcher Char (List Char)
  | '@' :: '{' :: s => (untilBrace s).map fun body => (body, body.length + 3)
  | _ => none

/-- What continues a dotted name: word characters, and dots that begin a further name. -/
def refTail : List Char → List Char
  | [] => []
  | [c] => if isWord c then [c] else []
  | c :: d :: s =>
    if isWord c then c :: refTail (d :: s)
    else if c = '.' ∧ isIdentStart d then c :: d :: refTail s
    else []

/-- `reAttrRef`, anchored: `@` and a dotted name. -/
def reAttrRef : Matcher Char String
  | '@' :: c :: s =>
    if isIdentStart c then
      some (String.ofList (c :: refTail s), (refTail s).length + 2)
    else none
  | _ => none

/-! ## Substitution -/

/-- The outputs recorded so far, by node and port. -/
abbrev Outputs := GoMap (GoMap Value)

/-- `lookupOutput`. -/
def lookupOutput (outputs : Outputs) (nodeID port : String) : Value :=
  match outputs.lookup nodeID with
  | none => .nil
  | some ports => (ports.lookup port).getD .nil

/-- The text an embedded output token becomes. -/
def outputText (v : Value) : List Char :=
  match v with
  | .nil => []
  | v => v.sprintV.toList

/-- The first token of a text, if it is all of `trimmed`. -/
def wholeToken {α : Type} (m : Matcher Char α) (s trimmed : List Char) : Option α :=
  match firstToken (lex m s) with
  | some (a, text) => if text = trimmed then some a else none
  | none => none

/-- A failed resolution is replaced by nothing. -/
def orEmpty : Outcome Value → Outcome Value
  | .err _ => .ok (.str "")
  | r => r

/-- The text an embedded attribute token becomes. -/
def attrText (r : Outcome Value) : Outcome (List Char) := do
  let v ← orEmpty r
  return (toStr v).toList

section

variable (scope : AttrScope)

def exprText (body : List Char) : Outcome (List Char) := attrText (evalChars scope.resolve body)

def refText (name : String) : Outcome (List Char) := attrText (scope.resolve name)

/-- `resolveAttrTokens`. -/
def resolveAttrTokens (s : List Char) : Outcome Value :=
  if '@' ∈ s then
    match wholeToken reAttrExpr (trim s) (trim s) with
    | some body => orEmpty (evalChars scope.resolve body)
    | none => match wholeToken reAttrRef (trim s) (trim s) with
      | some name => orEmpty (scope.resolve name)
      | none => do
        let out ← replaceAll (exprText scope) (lex reAttrExpr s)
        let out ← replaceAll (refText scope) (lex reAttrRef out)
        return .str (String.ofList out)
  else .ok (.str (String.ofList s))

/-- The text of a string after its output tokens are replaced. -/
def substOutputs (outputs : Outputs) (s : List Char) : List Char :=
  (replaceAll (fun t => outputText (lookupOutput outputs t.1 t.2)) (lex reTemplate s) : Id _)

/-- `resolveValue`. -/
def resolveValue (outputs : Outputs) : Value → Outcome Value
  | .str s =>
    match wholeToken reTemplate s.toList (trim s.toList) with
    | some (node, port) => .ok (lookupOutput outputs node port)
    | none => resolveAttrTokens scope (substOutputs outputs s.toList)
  | v => .ok v

/-- Resolve the values of a configuration one after the other. -/
def resolveEntries (outputs : Outputs) :
    List (Sigma fun _ : String => Value) → GoMap Value → Outcome (GoMap Value)
  | [], out => .ok out
  | e :: rest, out => do
    let v ← resolveValue scope outputs e.2
    resolveEntries outputs rest (out.insert e.1 v)

/-- `resolveConfigTemplates`. -/
def resolveConfigTemplates (config : GoMap Value) (outputs : Outputs) : Outcome (GoMap Value) :=
  resolveEntries scope outputs config.entries ∅

end

/-! ## How the attribute patterns extend -/

private theorem untilBrace_append (a b : List Char) :
    untilBrace (a ++ b) = untilBrace a ∨
      ∃ body, untilBrace (a ++ b) = some body ∧ a.length ≤ body.length := by
  induction a with
  | nil =>
    cases h : untilBrace b with
    | none => exact .inl h
    | some body => exact .inr ⟨body, h, Nat.zero_le _⟩
  | cons c a ih =>
    by_cases hc : c = '}'
    · left
      simp only [List.cons_append, untilBrace, if_pos hc]
    · simp only [List.cons_append, untilBrace, if_neg hc]
      obtain hsame | ⟨body, hbody, hlen⟩ := ih
      · exact .inl (by rw [hsame])
      · exact .inr ⟨c :: body, by rw [hbody]; rfl, Nat.succ_le_succ hlen⟩

/-- A pattern that takes two characters or more sees no token in fewer. -/
private theorem extends_of_two {α : Type} {m : Matcher Char α}
    (hnil : m [] = none) (hone : ∀ c, m [c] = none)
    (hlong : ∀ s t n, m s = some (t, n) → 2 ≤ n)
    (htwo : ∀ c d s b, m (c :: d :: s ++ b) = m (c :: d :: s) ∨
      ∃ t n, m (c :: d :: s ++ b) = some (t, n) ∧ s.length + 2 < n) : Extends m := by
  have hshort : ∀ a b, a.length ≤ 1 → m a = none →
      m (a ++ b) = m a ∨ ∃ t n, m (a ++ b) = some (t, n) ∧ a.length < n := by
    intro a b ha hnone
    cases h : m (a ++ b) with
    | none => exact .inl hnone.symm
    | some r => exact .inr ⟨r.1, r.2, rfl, ha.trans_lt (hlong _ r.1 r.2 h)⟩
  intro a b
  match a with
  | [] => exact hshort [] b (Nat.zero_le _) hnil
  | [c] => exact hshort [c] b (Nat.le_refl _) (hone c)
  | c :: d :: s => exact htwo c d s b

theorem extends_reAttrExpr : Extends reAttrExpr := by
  refine extends_of_two rfl (fun c => ?_) (fun s t n h => ?_) (fun c d s b => ?_)
  · unfold reAttrExpr
    split
    · rename_i heq
      cases heq
    · rfl
  · unfold reAttrExpr at h
    split at h
    · obtain ⟨body, -, hbody⟩ := Option.map_eq_some_iff.1 h
      have hn := (Prod.mk.inj hbody).2
      omega
    · cases h
  · by_cases hopen : c = '@' ∧ d = '{'
    · obtain ⟨rfl, rfl⟩ := hopen
      simp only [List.cons_append, reAttrExpr]
      obtain hsame | ⟨body, hbody, hlen⟩ := untilBrace_append s b
      · exact .inl (by rw [hsame])
      · exact .inr ⟨body, body.length + 3, by rw [hbody]; rfl, by omega⟩
    · left
      have hnone : ∀ s, reAttrExpr (c :: d :: s) = none := by
        intro s
        unfold reAttrExpr
        split
        · rename_i heq
          injection heq with hc hrest
          injection hrest with hd _
          exact absurd ⟨hc, hd⟩ hopen
        · rfl
      rw [List.cons_append, List.cons_append, hnone, hnone]

private theorem refTail_append (a b : List Char) :
    refTail (a ++ b) = refTail a ∨ a.length < (refTail (a ++ b)).length := by
  induction a using refTail.induct with
  | case1 =>
    cases h : refTail b with
    | nil => exact .inl h
    | cons c t => exact .inr (by simp [h])
  | case2 c hc =>
    cases b with
    | nil => exact .inl rfl
    | cons e b =>
      simp only [List.cons_append, List.nil_append, refTail, if_pos hc]
      cases refTail (e :: b) with
      | nil => exact .inl rfl
      | cons f t => exact .inr (by simp)
  | case3 c hc =>
    cases b with
    | nil => exact .inl rfl
    | cons e b =>
      simp only [List.cons_append, List.nil_append, refTail, if_neg hc]
      split
      · exact .inr (by simp)
      · exact .inl rfl
  | case4 c d s hc ih =>
    simp only [List.cons_append, refTail, if_pos hc] at ih ⊢
    obtain hsame | hlong := ih
    · exact .inl (by rw [hsame])
    · exact .inr (by simpa using hlong)
  | case5 c d s hc hd ih =>
    simp only [List.cons_append, refTail, if_neg hc, if_pos hd]
    obtain hsame | hlong := ih
    · exact .inl (by rw [hsame])
    · exact .inr (by simpa using hlong)
  | case6 c d s hc hd =>
    left
    simp only [List.cons_append, refTail, if_neg hc, if_neg hd]

theorem extends_reAttrRef : Extends reAttrRef := by
  refine extends_of_two rfl (fun c => ?_) (fun s t n h => ?_) (fun c d s b => ?_)
  · unfold reAttrRef
    split
    · rename_i heq
      cases heq
    · rfl
  · unfold reAttrRef at h
    split at h
    · split at h
      · cases h
        omega
      · cases h
    · cases h
  · by_cases hat : c = '@'
    · subst hat
      simp only [List.cons_append, reAttrRef]
      split
      · obtain hsame | hlong := refTail_append s b
        · exact .inl (by rw [hsame])
        · exact .inr ⟨_, _, rfl, by omega⟩
      · exact .inl rfl
    · left
      have hnone : ∀ s, reAttrRef (c :: d :: s) = none := by
        intro s
        unfold reAttrRef
        split
        · rename_i heq
          injection heq with hc _
          exact absurd hc hat
        · rfl
      rw [List.cons_append, List.cons_append, hnone, hnone]

/-! ## A string that is a single attribute token -/

private theorem untilBrace_append_of_some {a body : List Char} (h : untilBrace a = some body)
    (b : List Char) : untilBrace (a ++ b) = some body := by
  induction a generalizing body with
  | nil => cases h
  | cons c a ih =>
    by_cases hc : c = '}'
    · simpa only [List.cons_append, untilBrace, if_pos hc] using h
    · simp only [List.cons_append, untilBrace, if_neg hc] at h ⊢
      obtain ⟨tail, htail, rfl⟩ := Option.map_eq_some_iff.1 h
      rw [ih htail]
      rfl

/-- No name character, no dot and no `@` is a space. -/
private theorem not_ref_of_isSpace {c : Char} (h : isSpace c = true) :
    isWord c = false ∧ c ≠ '.' ∧ c ≠ '@' := by
  have hne : ∀ d, isSpace d = false → c ≠ d := by
    rintro d hd rfl
    rw [h] at hd
    cases hd
  refine ⟨?_, hne '.' (by decide), hne '@' (by decide)⟩
  have hunder : (c == '_') = false := beq_eq_false_iff_ne.2 (hne '_' (by decide))
  simp only [isWord, isAlpha, isDigit, hunder, Bool.or_false, Bool.or_eq_false_iff,
    Bool.and_eq_false_iff, decide_eq_false_iff_not, Char.le_def, UInt32.le_iff_toNat_le,
    not_le]
  simp only [isSpace, Bool.or_eq_true, Bool.and_eq_true, decide_eq_true_eq, beq_iff_eq] at h
  have hval : c.toNat = c.val.toNat := rfl
  simp
  omega

private theorem refTail_append_space (a : List Char) {b : List Char}
    (hb : ∀ c ∈ b, isSpace c = true) : refTail (a ++ b) = refTail a := by
  have hstop : ∀ c t, isSpace c = true → refTail (c :: t) = [] := by
    intro c t hc
    obtain ⟨hword, hdot, -⟩ := not_ref_of_isSpace hc
    cases t with
    | nil => simp [refTail, hword]
    | cons d t => simp [refTail, hword, hdot]
  induction a using refTail.induct with
  | case1 =>
    cases b with
    | nil => rfl
    | cons e b => exact hstop e b (hb e List.mem_cons_self)
  | case2 c hc =>
    cases b with
    | nil => rfl
    | cons e b =>
      have he := hb e List.mem_cons_self
      simp [refTail, hc, hstop e b he]
  | case3 c hc =>
    cases b with
    | nil => rfl
    | cons e b =>
      have hword := (not_ref_of_isSpace (hb e List.mem_cons_self)).1
      have hstart : isIdentStart e = false := by
        simp only [isWord, Bool.or_eq_false_iff] at hword
        simp [isIdentStart, hword]
      simp [refTail, hc, hstart]
  | case4 c d s hc ih =>
    simp only [List.cons_append, refTail, if_pos hc] at ih ⊢
    rw [ih]
  | case5 c d s hc hd ih =>
    simp only [List.cons_append, refTail, if_neg hc, if_pos hd]
    rw [ih]
  | case6 c d s hc hd =>
    simp only [List.cons_append, refTail, if_neg hc, if_neg hd]

/-- No token begins with a space, and spaces behind a token leave it as it is. -/
structure IgnoresSpace {α : Type} (m : Matcher Char α) : Prop where
  nil : m [] = none
  lead : ∀ c s, isSpace c = true → m (c :: s) = none
  trail : ∀ s b r, m s = some r → (∀ c ∈ b, isSpace c = true) → m (s ++ b) = some r

theorem ignoresSpace_reAttrExpr : IgnoresSpace reAttrExpr where
  nil := rfl
  lead c s hc := by
    unfold reAttrExpr
    split
    · rename_i heq
      injection heq with hat _
      exact absurd hat (not_ref_of_isSpace hc).2.2
    · rfl
  trail s b r hr _ := by
    unfold reAttrExpr at hr
    split at hr
    · obtain ⟨body, hbody, rfl⟩ := Option.map_eq_some_iff.1 hr
      simp only [List.cons_append, reAttrExpr, untilBrace_append_of_some hbody b,
        Option.map_some]
    · cases hr

theorem ignoresSpace_reAttrRef : IgnoresSpace reAttrRef where
  nil := rfl
  lead c s hc := by
    unfold reAttrRef
    split
    · rename_i heq
      injection heq with hat _
      exact absurd hat (not_ref_of_isSpace hc).2.2
    · rfl
  trail s b r hr hb := by
    unfold reAttrRef at hr
    split at hr
    · split at hr
      · rename_i hstart
        simp only [List.cons_append, reAttrRef, if_pos hstart, refTail_append_space _ hb]
        exact hr
      · cases hr
    · cases hr

/-- A string that is, between spaces, one token has that token. -/
theorem mem_tokens_of_wholeToken {α : Type} {m : Matcher Char α} (hm : IgnoresSpace m)
    {s : List Char} {a : α} (h : wholeToken m (trim s) (trim s) = some a) :
    a ∈ tokens (lex m s) := by
  obtain ⟨lead, trail, hs, hlead, htrail⟩ := exists_trim s
  have hlex : lex m s = lead.map .chr ++ lex m (trim s ++ trail) := by
    conv_lhs => rw [hs]
    exact lex_append_of_none (fun c hc t => hm.lead c t (hlead c hc)) _
  rw [hlex]
  unfold wholeToken at h
  split at h
  · rename_i b text hfirst
    split at h
    · rename_i htext
      cases h
      rw [htext] at hfirst
      generalize trim s = t at hfirst
      cases t with
      | nil => cases hfirst
      | cons c t =>
        obtain ⟨n, hmatch, -⟩ := matches_of_firstToken hfirst
        have hlong := hm.trail _ trail _ hmatch htrail
        rw [List.cons_append] at hlong
        have hfirst : firstToken (lex m (c :: (t ++ trail))) =
            some (a, (c :: (t ++ trail)).take n) := by
          rw [lex, lexFrom, hlong]
          rfl
        rw [← List.cons_append, ← firstToken_chr_append lead] at hfirst
        exact mem_tokens_of_firstToken hfirst
    · cases h
  · cases h

end Konnekt.Scheduler
