import Mathlib.Data.List.Basic

/-!
# Leftmost substitution over a text with substituted parts

A matcher recognises a token at the front of a text. Lexing finds the leftmost,
non-overlapping tokens, as a regular-expression replacement does. When parts of
the text were put there by an earlier substitution, lexing the whole text and
lexing each original part by itself agree as long as no token crosses the border
of a part or begins in a substituted one.
-/

namespace Lexing

variable {γ α : Type}

/-- A token at the front of a text and the number of characters it takes. -/
abbrev Matcher (γ α : Type) := List γ → Option (α × Nat)

/-- A lexed text is a sequence of plain characters and tokens with their text. -/
inductive Piece (γ α : Type) where
  | chr (c : γ)
  | tok (a : α) (text : List γ)

/-! ## Lexing -/

/-- Lexing with `skip` characters still inside the token found last. -/
def lexFrom (m : Matcher γ α) : Nat → List γ → List (Piece γ α)
  | _, [] => []
  | skip + 1, _ :: s => lexFrom m skip s
  | 0, c :: s =>
    match m (c :: s) with
    | some (a, n) => .tok a ((c :: s).take n) :: lexFrom m (n - 1) s
    | none => .chr c :: lexFrom m 0 s

def lex (m : Matcher γ α) (s : List γ) : List (Piece γ α) := lexFrom m 0 s

/-- Where the tokens begin and end, counted from `i`. -/
def spansFrom (m : Matcher γ α) : Nat → Nat → List γ → List (Nat × Nat)
  | _, _, [] => []
  | skip + 1, i, _ :: s => spansFrom m skip (i + 1) s
  | 0, i, c :: s =>
    match m (c :: s) with
    | some (_, n) => (i, i + n) :: spansFrom m (n - 1) (i + 1) s
    | none => spansFrom m 0 (i + 1) s

/-- The begin and end positions of the tokens of a text. -/
def spans (m : Matcher γ α) (s : List γ) : List (Nat × Nat) := spansFrom m 0 0 s

/-- The first token of a text, with its characters. -/
def firstToken : List (Piece γ α) → Option (α × List γ)
  | [] => none
  | .chr _ :: ps => firstToken ps
  | .tok a text :: _ => some (a, text)

/-- More text behind a prefix changes what is matched in front only by reaching past it. -/
def Extends (m : Matcher γ α) : Prop :=
  ∀ a b, m (a ++ b) = m a ∨ ∃ t n, m (a ++ b) = some (t, n) ∧ a.length < n

/-- Lexing splits at a border that no token crosses. -/
private theorem lexFrom_append {m : Matcher γ α} (hm : Extends m) (a b : List γ) {skip : Nat}
    (hskip : skip ≤ a.length) (i : Nat)
    (h : ∀ t ∈ spansFrom m skip i (a ++ b), t.1 < i + a.length → t.2 ≤ i + a.length) :
    lexFrom m skip (a ++ b) = lexFrom m skip a ++ lexFrom m 0 b := by
  induction a generalizing skip i with
  | nil =>
    obtain rfl : skip = 0 := Nat.le_zero.1 hskip
    rfl
  | cons c a ih =>
    have hlen : (c :: a).length = a.length + 1 := rfl
    have hshift : i + (c :: a).length = i + 1 + a.length := by omega
    rw [hshift] at h
    cases skip with
    | succ skip => exact ih (by omega) (i + 1) h
    | zero =>
      have hfront := hm (c :: a) b
      simp only [List.cons_append] at h hfront ⊢
      simp only [lexFrom]
      rw [spansFrom] at h
      cases hmatch : m (c :: (a ++ b)) with
      | none =>
        rw [hmatch] at hfront h
        obtain hsame | ⟨t, n, hsome, -⟩ := hfront
        · rw [← hsame]
          exact congrArg _ (ih (Nat.zero_le _) (i + 1) h)
        · cases hsome
      | some r =>
        obtain ⟨t, n⟩ := r
        rw [hmatch] at hfront h
        have hend : i + n ≤ i + 1 + a.length :=
          h (i, i + n) List.mem_cons_self (by omega)
        obtain hsame | ⟨t', n', hsome, hlong⟩ := hfront
        · have htake : (c :: (a ++ b)).take n = (c :: a).take n := by
            rw [← List.cons_append, List.take_append_of_le_length (by omega)]
          rw [← hsame]
          dsimp only
          rw [htake, ih (by omega) (i + 1) fun t ht => h t (List.mem_cons_of_mem _ ht)]
          rfl
        · cases hsome
          omega

/-- Text in which no token begins is plain. -/
private theorem lexFrom_plain (m : Matcher γ α) (v b : List γ) (i : Nat)
    (h : ∀ t ∈ spansFrom m 0 i (v ++ b), i + v.length ≤ t.1) :
    lexFrom m 0 (v ++ b) = v.map .chr ++ lexFrom m 0 b := by
  induction v generalizing i with
  | nil => rfl
  | cons c v ih =>
    have hshift : i + (c :: v).length = i + 1 + v.length := by
      rw [List.length_cons]
      omega
    rw [hshift] at h
    simp only [List.cons_append, lexFrom, List.map_cons] at h ⊢
    rw [spansFrom] at h
    cases hmatch : m (c :: (v ++ b)) with
    | none =>
      rw [hmatch] at h
      exact congrArg _ (ih (i + 1) h)
    | some r =>
      rw [hmatch] at h
      have hstart := h (i, i + r.2) List.mem_cons_self
      omega

/-! ## A text that is one token -/

/-- Characters at which no token begins, in front of a text. -/
theorem lex_append_of_none {m : Matcher γ α} {lead : List γ}
    (h : ∀ c ∈ lead, ∀ s, m (c :: s) = none) (s : List γ) :
    lex m (lead ++ s) = lead.map .chr ++ lex m s := by
  induction lead with
  | nil => rfl
  | cons c lead ih =>
    have hnone := h c List.mem_cons_self (lead ++ s)
    have hrest := ih fun d hd => h d (List.mem_cons_of_mem _ hd)
    unfold lex at hrest ⊢
    simp only [List.cons_append, lexFrom, hnone, List.map_cons, hrest]

/-- A text at none of whose characters a token begins is plain. -/
theorem lex_eq_map_chr {m : Matcher γ α} {s : List γ} (h : ∀ c ∈ s, ∀ t, m (c :: t) = none) :
    lex m s = s.map .chr := by
  have happend := lex_append_of_none h []
  rwa [List.append_nil, show lex m [] = [] from rfl, List.append_nil] at happend

theorem firstToken_map_chr (s : List γ) :
    firstToken (s.map (.chr : γ → Piece γ α)) = none := by
  induction s with
  | nil => rfl
  | cons c s ih => exact ih

@[simp] theorem firstToken_chr_append (lead : List γ) (ps : List (Piece γ α)) :
    firstToken (lead.map .chr ++ ps) = firstToken ps := by
  induction lead with
  | nil => rfl
  | cons c lead ih => exact ih

private theorem length_firstToken_le (m : Matcher γ α) (s : List γ) {skip : Nat} {a : α}
    {text : List γ} (h : firstToken (lexFrom m skip s) = some (a, text)) :
    text.length ≤ s.length := by
  induction s generalizing skip with
  | nil =>
    rw [lexFrom.eq_def] at h
    cases h
  | cons c s ih =>
    cases skip with
    | succ skip => exact Nat.le_succ_of_le (ih h)
    | zero =>
      rw [lexFrom] at h
      cases hm : m (c :: s) with
      | none =>
        rw [hm] at h
        exact Nat.le_succ_of_le (ih h)
      | some r =>
        rw [hm] at h
        obtain ⟨-, rfl⟩ := Prod.mk.inj (Option.some.inj h)
        exact List.length_take_le' _ _

/-- A first token that is the whole text is matched at its front. -/
theorem matches_of_firstToken {m : Matcher γ α} {c : γ} {s : List γ} {a : α}
    (h : firstToken (lex m (c :: s)) = some (a, c :: s)) :
    ∃ n, m (c :: s) = some (a, n) ∧ (c :: s).take n = c :: s := by
  rw [lex, lexFrom] at h
  cases hm : m (c :: s) with
  | none =>
    rw [hm] at h
    have hlen := length_firstToken_le m s h
    simp only [List.length_cons] at hlen
    omega
  | some r =>
    rw [hm] at h
    obtain ⟨ha, htext⟩ := Prod.mk.inj (Option.some.inj h)
    exact ⟨r.2, by rw [← ha], htext⟩

/-- The tokens of a lexed text. -/
def tokens (ps : List (Piece γ α)) : List α :=
  ps.filterMap fun
    | .chr _ => none
    | .tok a _ => some a

theorem mem_tokens_of_firstToken {ps : List (Piece γ α)} {a : α} {text : List γ}
    (h : firstToken ps = some (a, text)) : a ∈ tokens ps := by
  induction ps with
  | nil => cases h
  | cons p ps ih =>
    cases p with
    | chr c => exact ih h
    | tok b t =>
      obtain ⟨rfl, -⟩ := Prod.mk.inj (Option.some.inj h)
      exact List.mem_cons_self

/-! ## Texts in parts -/

/-- A part of a text: original characters, or the outcome of a substitution. -/
inductive Run (γ : Type) where
  | own (s : List γ)
  | sub (s : List γ)
  deriving DecidableEq

namespace Run

def text : Run γ → List γ
  | own s | sub s => s

end Run

/-- The characters of a text in parts. -/
def plain (rs : List (Run γ)) : List γ := rs.flatMap Run.text

/-- No token crosses the end of an original part or begins in a substituted one. -/
def Undisturbed (m : Matcher γ α) : List (Run γ) → Prop
  | [] => True
  | .own s :: rs =>
    (∀ t ∈ spans m (s ++ plain rs), t.1 < s.length → t.2 ≤ s.length) ∧ Undisturbed m rs
  | .sub s :: rs =>
    (∀ t ∈ spans m (s ++ plain rs), s.length ≤ t.1) ∧ Undisturbed m rs

/-- The lexing of a part by itself; a substituted part is plain characters. -/
def lexRun (m : Matcher γ α) : Run γ → List (Piece γ α)
  | .own s => lex m s
  | .sub s => s.map .chr

/-- An undisturbed text is lexed part by part. -/
theorem lex_plain {m : Matcher γ α} (hm : Extends m) {rs : List (Run γ)}
    (h : Undisturbed m rs) : lex m (plain rs) = rs.flatMap (lexRun m) := by
  induction rs with
  | nil => rfl
  | cons r rs ih =>
    cases r with
    | own s =>
      have hs : ∀ t ∈ spansFrom m 0 0 (s ++ plain rs), t.1 < 0 + s.length →
          t.2 ≤ 0 + s.length := by
        rw [Nat.zero_add]
        exact h.1
      rw [List.flatMap_cons, ← ih h.2]
      exact lexFrom_append hm s (plain rs) (Nat.zero_le _) 0 hs
    | sub s =>
      have hs : ∀ t ∈ spansFrom m 0 0 (s ++ plain rs), 0 + s.length ≤ t.1 := by
        rw [Nat.zero_add]
        exact h.1
      rw [List.flatMap_cons, ← ih h.2]
      exact lexFrom_plain m s (plain rs) 0 hs

/-- The tokens found in the original parts of a text, each read by itself. -/
def ownTokens (m : Matcher γ α) (rs : List (Run γ)) : List α :=
  tokens (rs.flatMap (lexRun m))

/-! ## Substituting tokens -/

section Substitution

variable {M : Type → Type} [Monad M]

/-- The text with every token replaced, from left to right. -/
def replaceAll (f : α → M (List γ)) : List (Piece γ α) → M (List γ)
  | [] => pure []
  | .chr c :: ps => do
    let rest ← replaceAll f ps
    pure (c :: rest)
  | .tok a _ :: ps => do
    let v ← f a
    let rest ← replaceAll f ps
    pure (v ++ rest)

/-- A character in front of a text in parts. -/
def consOwn (c : γ) : List (Run γ) → List (Run γ)
  | .own s :: rs => .own (c :: s) :: rs
  | rs => .own [c] :: rs

@[simp] theorem plain_consOwn (c : γ) (rs : List (Run γ)) :
    plain (consOwn c rs) = c :: plain rs := by
  unfold consOwn
  split
  · rfl
  · rfl

/-- `replaceAll`, remembering which parts of the outcome were put there. -/
def substitute (f : α → M (List γ)) : List (Piece γ α) → M (List (Run γ))
  | [] => pure []
  | .chr c :: ps => do
    let rest ← substitute f ps
    pure (consOwn c rest)
  | .tok a _ :: ps => do
    let v ← f a
    let rest ← substitute f ps
    pure (.sub v :: rest)

/-- Substitution in the original parts only. -/
def substituteRuns (m : Matcher γ α) (f : α → M (List γ)) : List (Run γ) → M (List (Run γ))
  | [] => pure []
  | .own s :: rs => do
    let front ← substitute f (lex m s)
    let rest ← substituteRuns m f rs
    pure (front ++ rest)
  | .sub s :: rs => do
    let rest ← substituteRuns m f rs
    pure (.sub s :: rest)

variable [LawfulMonad M]

/-- Forgetting the parts leaves the replaced text. -/
theorem plain_substitute (f : α → M (List γ)) (ps : List (Piece γ α)) :
    plain <$> substitute f ps = replaceAll f ps := by
  induction ps with
  | nil => simp [substitute, replaceAll, plain]
  | cons p ps ih =>
    cases p with
    | chr c => simp [substitute, replaceAll, ← ih]
    | tok a text =>
      simp only [substitute, replaceAll, ← ih, map_eq_pure_bind, bind_assoc, pure_bind]
      rfl

theorem replaceAll_append (f : α → M (List γ)) (ps qs : List (Piece γ α)) :
    replaceAll f (ps ++ qs) =
      replaceAll f ps >>= fun front => (front ++ ·) <$> replaceAll f qs := by
  induction ps with
  | nil => simp [replaceAll]
  | cons p ps ih =>
    cases p with
    | chr c => simp [replaceAll, ih]
    | tok a text => simp [replaceAll, ih]

/-- What the tokens of a text are replaced by decides the result. -/
theorem replaceAll_congr {f g : α → M (List γ)} {ps : List (Piece γ α)}
    (h : ∀ a ∈ tokens ps, f a = g a) : replaceAll f ps = replaceAll g ps := by
  induction ps with
  | nil => rfl
  | cons p ps ih =>
    cases p with
    | chr c => rw [replaceAll, replaceAll, ih h]
    | tok a text =>
      rw [replaceAll, replaceAll, h a List.mem_cons_self,
        ih fun b hb => h b (List.mem_cons_of_mem a hb)]

theorem replaceAll_chr (f : α → M (List γ)) (s : List γ) :
    replaceAll f (s.map (.chr : γ → Piece γ α)) = pure s := by
  induction s with
  | nil => rfl
  | cons c s ih => simp [replaceAll, ih]

/-- In an undisturbed text, replacing the tokens of the whole replaces exactly the tokens
of its original parts. -/
theorem replaceAll_plain {m : Matcher γ α} (hm : Extends m) (f : α → M (List γ))
    {rs : List (Run γ)} (h : Undisturbed m rs) :
    replaceAll f (lex m (plain rs)) = plain <$> substituteRuns m f rs := by
  rw [lex_plain hm h]
  clear h
  induction rs with
  | nil => simp [replaceAll, substituteRuns, plain]
  | cons r rs ih =>
    rw [List.flatMap_cons, replaceAll_append, ih]
    cases r with
    | own s =>
      simp only [lexRun, substituteRuns, ← plain_substitute, map_eq_pure_bind, bind_assoc,
        pure_bind, plain, List.flatMap_append]
    | sub s =>
      rw [lexRun, replaceAll_chr]
      simp only [substituteRuns, map_eq_pure_bind, bind_assoc, pure_bind, plain,
        List.flatMap_cons, Run.text]

end Substitution

end Lexing
