import SlotMachine.Clvm.Value

/-!
# How a command ends

A function of the command line returns a result or panics.  Whether arithmetic that leaves
its width panics or wraps around depends on the profile of the build.

* `Outcome` — the end of a function, and `bind_eq_ok`, `bind_eq_panicked` — what comes after
  a function that returned.
* `Profile` — the profiles, with the arithmetic of each.
-/

namespace SlotMachine.Cli

/-- `CliError`, as far as the commands raise it. -/
inductive CliError where
  | invalidAmount
  | parseHex
  | invalidPublicKey
  | coinNotFound (coinId : Bytes)
  | coinNotSpent (coinId : Bytes)
  | missingHint
  | driver (message : String)
  | custom (message : String)
  deriving DecidableEq

/-- A function returns, or panics. -/
inductive Outcome (α : Type) where
  | returned (result : Except CliError α)
  | panicked
  deriving DecidableEq

namespace Outcome

variable {α β : Type} {x : Outcome α} {f : α → Outcome β}

/-- `?`: what comes after a function that returned a value. -/
def bind (x : Outcome α) (f : α → Outcome β) : Outcome β :=
  match x with
  | .returned (.ok a) => f a
  | .returned (.error e) => .returned (.error e)
  | .panicked => .panicked

instance : Monad Outcome where
  pure a := .returned (.ok a)
  bind := bind

/-- `return Err(e)`. -/
def fail (e : CliError) : Outcome α := .returned (.error e)

/-- `let Some(a) = x else { return Err(e) }`. -/
def require (x : Option α) (e : CliError) : Outcome α := .returned (x.elim (.error e) .ok)

/-- `if !p { return Err(e) }`. -/
def check (p : Prop) [Decidable p] (e : CliError) : Outcome Unit :=
  if p then pure () else fail e

/-- `xs[i]`, which panics behind the end. -/
def index (xs : List α) (i : ℕ) : Outcome α :=
  match xs[i]? with
  | some a => pure a
  | none => .panicked

/-- A function returns a value exactly if what it is made of does. -/
@[simp] theorem bind_eq_ok {b : β} : (x >>= f) = .returned (.ok b) ↔
    ∃ a, x = .returned (.ok a) ∧ f a = .returned (.ok b) := by
  show x.bind f = _ ↔ _
  unfold bind
  rcases x with (e | a) | _ <;> simp

/-- A function panics exactly if something it comes to does. -/
@[simp] theorem bind_eq_panicked : (x >>= f) = .panicked ↔
    x = .panicked ∨ ∃ a, x = .returned (.ok a) ∧ f a = .panicked := by
  show x.bind f = _ ↔ _
  unfold bind
  rcases x with (e | a) | _ <;> simp

@[simp] theorem pure_eq_ok {a b : α} :
    (pure a : Outcome α) = .returned (.ok b) ↔ a = b := by
  show Outcome.returned (.ok a) = _ ↔ _
  simp

@[simp] theorem pure_ne_panicked {a : α} : (pure a : Outcome α) ≠ .panicked := by
  intro h
  cases h

@[simp] theorem fail_ne_ok {e : CliError} {a : α} : (fail e : Outcome α) ≠ .returned (.ok a) := by
  unfold fail
  simp

@[simp] theorem fail_ne_panicked {e : CliError} : (fail e : Outcome α) ≠ .panicked := by
  intro h
  cases h

@[simp] theorem require_eq_ok {o : Option α} {e : CliError} {a : α} :
    require o e = .returned (.ok a) ↔ o = some a := by
  cases o <;> simp [require]

@[simp] theorem require_ne_panicked {o : Option α} {e : CliError} :
    require o e ≠ .panicked := by
  intro h
  cases h

@[simp] theorem check_eq_ok {p : Prop} [Decidable p] {e : CliError} {u : Unit} :
    check p e = .returned (.ok u) ↔ p := by
  unfold check
  split <;> simp [*]

@[simp] theorem check_ne_panicked {p : Prop} [Decidable p] {e : CliError} :
    check p e ≠ .panicked := by
  unfold check
  split <;> simp

@[simp] theorem index_eq_ok {xs : List α} {i : ℕ} {a : α} :
    index xs i = .returned (.ok a) ↔ xs[i]? = some a := by
  unfold index
  cases xs[i]? <;> simp

@[simp] theorem index_eq_panicked {xs : List α} {i : ℕ} :
    index xs i = .panicked ↔ xs.length ≤ i := by
  unfold index
  rw [← List.getElem?_eq_none_iff]
  cases xs[i]? <;> simp

end Outcome

/-- The profile of a build: the first one checks for overflow. -/
inductive Profile where
  | dev
  | release
  deriving DecidableEq

namespace Profile

/-- A sum of `width` bits, none if it panics. -/
def add (profile : Profile) (width a b : ℕ) : Option ℕ :=
  if a + b < 2 ^ width then some (a + b)
  else match profile with
    | .dev => none
    | .release => some ((a + b) % 2 ^ width)

/-- A product of `width` bits. -/
def mul (profile : Profile) (width a b : ℕ) : Option ℕ :=
  if a * b < 2 ^ width then some (a * b)
  else match profile with
    | .dev => none
    | .release => some (a * b % 2 ^ width)

/-- A difference of `width` bits. -/
def sub (profile : Profile) (width a b : ℕ) : Option ℕ :=
  if b ≤ a then some (a - b)
  else match profile with
    | .dev => none
    | .release => some ((a + 2 ^ width - b) % 2 ^ width)

variable {profile : Profile} {width a b : ℕ}

theorem add_of_lt (h : a + b < 2 ^ width) : profile.add width a b = some (a + b) := if_pos h

/-- Without overflow checks there always is a sum. -/
theorem exists_add_release (width a b : ℕ) : ∃ c, Profile.release.add width a b = some c := by
  unfold add
  split
  · exact ⟨_, rfl⟩
  · exact ⟨_, rfl⟩

theorem mul_of_lt (h : a * b < 2 ^ width) : profile.mul width a b = some (a * b) := if_pos h

/-- Without overflow checks there always is a difference. -/
theorem exists_sub_release (width a b : ℕ) : ∃ c, Profile.release.sub width a b = some c := by
  unfold sub
  split
  · exact ⟨_, rfl⟩
  · exact ⟨_, rfl⟩

theorem sub_of_le (h : b ≤ a) : profile.sub width a b = some (a - b) := if_pos h

end Profile

end SlotMachine.Cli
