import Konnekt.Scheduler.Template

/-!
# Substituted text and the tokens of a string

The reference expansion keeps track of what was put into the string: output
tokens are replaced first, and attribute tokens are then looked for in the
string's own characters only. The three passes of the code agree with it as long
as no attribute token they read involves substituted characters. A string that
is a single token takes the value of the token instead of its text.
-/

namespace Konnekt.Scheduler

open Go Lexing

/-- A string after its output tokens are replaced, in parts. -/
def outputRuns (outputs : Outputs) (s : List Char) : List (Run Char) :=
  (substitute (fun t => outputText (lookupOutput outputs t.1 t.2)) (lex reTemplate s) : Id _)

/-- The attribute tokens of the own parts replaced, everything else unchanged. -/
def expandOwn (scope : AttrScope) (rs : List (Run Char)) : Outcome (List Char) := do
  let rs ← substituteRuns reAttrExpr (exprText scope) rs
  plain <$> substituteRuns reAttrRef (refText scope) rs

/-- The single attribute token of a text that has nothing else but space around it. -/
def soleToken {α : Type} (m : Matcher Char α) (s : List Char) : Option α :=
  wholeToken m (trim s) (trim s)

/-- No attribute token that is read involves substituted characters. -/
def ReadsOwnTokens (scope : AttrScope) (rs : List (Run Char)) : Prop :=
  Undisturbed reAttrExpr rs ∧
    if (soleToken reAttrRef (plain rs)).isSome then Undisturbed reAttrRef rs
    else ∀ rs', substituteRuns reAttrExpr (exprText scope) rs = .ok rs' →
      Undisturbed reAttrRef rs'

/-- The value of a text in parts that holds no output tokens any more. -/
def expansion (scope : AttrScope) (rs : List (Run Char)) : Outcome Value :=
  match soleToken reAttrExpr (plain rs), soleToken reAttrRef (plain rs) with
  | some body, _ => orEmpty (evalChars scope.resolve body)
  | none, some name => orEmpty (scope.resolve name)
  | none, none => (fun cs => .str (String.ofList cs)) <$> expandOwn scope rs

theorem plain_outputRuns (outputs : Outputs) (s : List Char) :
    plain (outputRuns outputs s) = substOutputs outputs s :=
  plain_substitute (M := Id) _ _

/-- `resolveAttrTokens` reads `@` tokens only. -/
private def NeedsAt {α : Type} (m : Matcher Char α) : Prop := ∀ c s, c ≠ '@' → m (c :: s) = none

private theorem needsAt_reAttrExpr : NeedsAt reAttrExpr := by
  intro c s hc
  unfold reAttrExpr
  split
  · rename_i heq
    injection heq with hat _
    exact absurd hat hc
  · rfl

private theorem needsAt_reAttrRef : NeedsAt reAttrRef := by
  intro c s hc
  unfold reAttrRef
  split
  · rename_i heq
    injection heq with hat _
    exact absurd hat hc
  · rfl

private theorem NeedsAt.lex {α : Type} {m : Matcher Char α} (hm : NeedsAt m) {s : List Char}
    (hs : '@' ∉ s) : lex m s = s.map .chr :=
  lex_eq_map_chr fun c hc t => hm c t fun hat => hs (hat ▸ hc)

private theorem NeedsAt.soleToken {α : Type} {m : Matcher Char α} (hm : NeedsAt m)
    {s : List Char} (hs : '@' ∉ s) : soleToken m s = none := by
  obtain ⟨lead, trail, happend, -⟩ := exists_trim s
  have htrim : '@' ∉ trim s := by
    intro hmem
    apply hs
    rw [happend]
    exact List.mem_append_right _ (List.mem_append_left _ hmem)
  rw [Scheduler.soleToken, wholeToken, hm.lex htrim, firstToken_map_chr]

/-! ## The passes of the code on a text in parts -/

section

variable (scope : AttrScope) {rs : List (Run Char)}

/-- Both passes, each over the text the one before left behind. -/
private theorem passes_eq_expandOwn (hexprs : Undisturbed reAttrExpr rs)
    (hrefs : ∀ rs', substituteRuns reAttrExpr (exprText scope) rs = .ok rs' →
      Undisturbed reAttrRef rs') :
    (do
      let out ← replaceAll (exprText scope) (lex reAttrExpr (plain rs))
      replaceAll (refText scope) (lex reAttrRef out)) = expandOwn scope rs := by
  rw [replaceAll_plain extends_reAttrExpr _ hexprs, expandOwn]
  cases h : substituteRuns reAttrExpr (exprText scope) rs with
  | err m => rfl
  | panic m => rfl
  | ok rs' => exact replaceAll_plain extends_reAttrRef _ (hrefs rs' h)

/-- The code's passes compute the expansion of a text in parts. -/
theorem resolveAttrTokens_eq_expansion (h : ReadsOwnTokens scope rs) :
    resolveAttrTokens scope (plain rs) = expansion scope rs := by
  obtain ⟨hexprs, hrefs⟩ := h
  unfold resolveAttrTokens expansion
  by_cases hat : '@' ∈ plain rs
  · rw [if_pos hat, ← soleToken, ← soleToken]
    cases hexpr : soleToken reAttrExpr (plain rs) with
    | some body => rfl
    | none =>
      cases href : soleToken reAttrRef (plain rs) with
      | some name => rfl
      | none =>
        rw [href] at hrefs
        rw [← passes_eq_expandOwn scope hexprs hrefs]
        simp only [map_eq_pure_bind, bind_assoc]
  · have hexpr := needsAt_reAttrExpr.soleToken hat
    have href := needsAt_reAttrRef.soleToken hat
    rw [href] at hrefs
    rw [if_neg hat, hexpr, href, ← passes_eq_expandOwn scope hexprs hrefs,
      needsAt_reAttrExpr.lex hat, replaceAll_chr]
    simp only [Outcome.pure_eq_ok, Outcome.ok_bind]
    rw [needsAt_reAttrRef.lex hat, replaceAll_chr]
    rfl

/-- A single attribute token is one of the string's own. -/
theorem soleToken_own {α : Type} {m : Matcher Char α} (hm : Extends m) (hs : IgnoresSpace m)
    (h : Undisturbed m rs) {a : α} (ha : soleToken m (plain rs) = some a) :
    a ∈ ownTokens m rs := by
  rw [ownTokens, ← lex_plain hm h]
  exact mem_tokens_of_wholeToken hs ha

end

/-- A string that is one output token has the recorded value itself. Every other string is
expanded once, substituted text staying as it is, provided that no attribute token that is
read involves substituted characters. -/
theorem resolveValue_expansion (scope : AttrScope) (outputs : Outputs) (s : String) :
    (∀ node port, wholeToken reTemplate s.toList (trim s.toList) = some (node, port) →
      resolveValue scope outputs (.str s) = .ok (lookupOutput outputs node port)) ∧
    (wholeToken reTemplate s.toList (trim s.toList) = none →
      ReadsOwnTokens scope (outputRuns outputs s.toList) →
        resolveValue scope outputs (.str s) = expansion scope (outputRuns outputs s.toList) ∧
        (∀ body, soleToken reAttrExpr (plain (outputRuns outputs s.toList)) = some body →
          body ∈ ownTokens reAttrExpr (outputRuns outputs s.toList)) ∧
        ∀ name, soleToken reAttrRef (plain (outputRuns outputs s.toList)) = some name →
          name ∈ ownTokens reAttrRef (outputRuns outputs s.toList)) := by
  constructor
  · intro node port h
    simp only [resolveValue, h]
  · intro h hown
    refine ⟨?_, fun body hbody => ?_, fun name hname => ?_⟩
    · simp only [resolveValue, h, ← plain_outputRuns]
      exact resolveAttrTokens_eq_expansion scope hown
    · exact soleToken_own extends_reAttrExpr ignoresSpace_reAttrExpr hown.1 hbody
    · have hrefs := hown.2
      rw [hname] at hrefs
      exact soleToken_own extends_reAttrRef ignoresSpace_reAttrRef hrefs hname

/-- A server with the given ticks per second and nothing else of note. -/
private def substScope : AttrScope where
  serverID := "s1"
  deps := fun _ =>
    { tps := 20, playerCount := 0, ramUsed := 0, ramTotal := 0, running := true,
      maxPlayers := 20, config := .ok (), properties := .ok ∅ }
  custom := ∅

/-- One output `n.out` with the given value. -/
private def substRecorded (v : Value) : Outputs :=
  GoMap.ofList [("n", GoMap.ofList [("out", v)])]

/-- An output that contains template text stays as it is beside the string's own tokens. -/
theorem resolveValue_expansion_example :
    resolveValue substScope (substRecorded (.str "{{n.out}} or @"))
        (.str "at @tps: {{n.out}}") = .ok (.str "at 20: {{n.out}} or @") := by
  have hruns : outputRuns (substRecorded (.str "{{n.out}} or @")) "at @tps: {{n.out}}".toList =
      [.own "at @tps: ".toList, .sub "{{n.out}} or @".toList] := by decide +kernel
  have hwhole : wholeToken reTemplate "at @tps: {{n.out}}".toList
      (trim "at @tps: {{n.out}}".toList) = none := by decide +kernel
  have hown : ReadsOwnTokens substScope
      (outputRuns (substRecorded (.str "{{n.out}} or @")) "at @tps: {{n.out}}".toList) := by
    rw [hruns]
    refine ⟨⟨by decide +kernel, by decide +kernel, trivial⟩, ?_⟩
    rw [if_neg (by decide +kernel)]
    intro rs' h
    have hrs : substituteRuns reAttrExpr (exprText substScope)
        [.own "at @tps: ".toList, .sub "{{n.out}} or @".toList] =
        .ok [.own "at @tps: ".toList, .sub "{{n.out}} or @".toList] := by decide +kernel
    rw [hrs] at h
    cases h
    exact ⟨by decide +kernel, by decide +kernel, trivial⟩
  rw [((resolveValue_expansion substScope _ _).2 hwhole hown).1, hruns]
  decide +kernel

/-- Replacing each token of the string by its text is not what happens in general: text
that came out of an output is read again, and a single token loses the space around it. -/
theorem resolveValue_ne_expandOwn :
    resolveValue substScope (substRecorded (.str "@tps")) (.str "hi {{n.out}}") ≠
      (fun cs => .str (String.ofList cs)) <$>
        expandOwn substScope (outputRuns (substRecorded (.str "@tps")) "hi {{n.out}}".toList) ∧
    resolveValue substScope (substRecorded (.str "20")) (.str " {{n.out}} ") ≠
      (fun cs => .str (String.ofList cs)) <$>
        expandOwn substScope (outputRuns (substRecorded (.str "20")) " {{n.out}} ".toList) := by
  decide +kernel

/-- The text of an output is looked up as an attribute. -/
example : resolveValue substScope (substRecorded (.str "@tps")) (.str "hi {{n.out}}") =
    .ok (.str "hi 20") := by decide

end Konnekt.Scheduler
