import Konnekt.Go.Map
import Konnekt.Go.Text

/-!
# Dynamically typed values

`interface{}` restricted to what a graph's configuration, its data wires and its
attributes can hold: the JSON scalars, the integer types an executor may publish,
and composite values by their printed form.
-/

namespace Go

/-- An `interface{}` value. -/
inductive Value where
  | nil
  | str (s : String)
  | num (f : Float64)
  | int (n : Int)
  | int64 (n : Int)
  | bool (b : Bool)
  /-- A list or an object, of which only the `%v` text is ever used. -/
  | other (text : String)
  deriving DecidableEq, Repr

namespace Value

instance : Inhabited Value := ⟨nil⟩

/-- `fmt.Sprintf("%v", v)`. -/
def sprintV : Value → String
  | nil => "<nil>"
  | str s => s
  | num f => formatG f
  | int n | int64 n => toString n
  | bool b => if b then "true" else "false"
  | other text => text

end Value

/-- A call that may fail with a message, or stop the program. -/
inductive Outcome (α : Type) where
  | ok (a : α)
  | err (message : String)
  /-- A run-time panic: nothing in the run recovers it. -/
  | panic (reason : String)
  deriving DecidableEq, Repr

namespace Outcome

variable {α β : Type}

def bind (x : Outcome α) (f : α → Outcome β) : Outcome β :=
  match x with
  | ok a => f a
  | err m => err m
  | panic r => panic r

instance : Monad Outcome where
  pure := ok
  bind := bind

def ofExcept : Except String α → Outcome α
  | .ok a => ok a
  | .error m => err m

/-- The value of a successful call; every failure gives the default. -/
def getD (x : Outcome α) (d : α) : α :=
  match x with
  | ok a => a
  | err _ | panic _ => d

def panics : Outcome α → Bool
  | panic _ => true
  | ok _ | err _ => false

@[simp] theorem ok_bind (a : α) (f : α → Outcome β) : (ok a >>= f) = f a := rfl
@[simp] theorem err_bind (m : String) (f : α → Outcome β) : (err m >>= f) = err m := rfl
@[simp] theorem panic_bind (r : String) (f : α → Outcome β) : (panic r >>= f) = panic r := rfl
@[simp] theorem bind_assoc {γ : Type} (x : Outcome α) (f : α → Outcome β) (g : β → Outcome γ) :
    (x >>= f) >>= g = x >>= fun a => f a >>= g := by
  cases x <;> rfl

@[simp] theorem pure_eq_ok (a : α) : (pure a : Outcome α) = ok a := rfl

/-- A sequence succeeds when its head does and the rest does on its value. -/
theorem bind_eq_ok {x : Outcome α} {f : α → Outcome β} {b : β} :
    (x >>= f) = ok b ↔ ∃ a, x = ok a ∧ f a = ok b := by
  cases x with
  | ok a => simp
  | err m => simp
  | panic r => simp

theorem bind_eq_err {x : Outcome α} {f : α → Outcome β} {m : String} :
    (x >>= f) = err m ↔ x = err m ∨ ∃ a, x = ok a ∧ f a = err m := by
  cases x <;> simp

theorem bind_eq_panic {x : Outcome α} {f : α → Outcome β} {r : String} :
    (x >>= f) = panic r ↔ x = panic r ∨ ∃ a, x = ok a ∧ f a = panic r := by
  cases x <;> simp

instance : LawfulMonad Outcome :=
  LawfulMonad.mk' Outcome (fun x => by cases x <;> rfl) (fun _ _ => rfl)
    (fun x _ _ => by cases x <;> rfl)

@[simp] theorem panics_ofExcept (x : Except String α) : (ofExcept x).panics = false := by
  cases x <;> rfl

/-- A sequence panics when its head does, or succeeds into a panic. -/
theorem panics_bind (x : Outcome α) (f : α → Outcome β) :
    (x >>= f).panics = true ↔ x.panics = true ∨ ∃ a, x = ok a ∧ (f a).panics = true := by
  cases x with
  | ok a => simp [panics]
  | err m => simp [panics]
  | panic r => simp [panics]

end Outcome

/-- A call with an error result succeeds when its first part does and the rest does on its
value. -/
theorem except_bind_eq_ok {ε α β : Type} {x : Except ε α} {f : α → Except ε β} {b : β} :
    (x >>= f) = .ok b ↔ ∃ a, x = .ok a ∧ f a = .ok b := by
  cases x with
  | error e =>
    constructor
    · intro h
      cases h
    · rintro ⟨a, h, -⟩
      cases h
  | ok a =>
    constructor
    · exact fun h => ⟨a, rfl, h⟩
    · rintro ⟨a', heq, h⟩
      cases heq
      exact h

end Go
