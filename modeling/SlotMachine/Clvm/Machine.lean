import Mathlib.Data.Int.Bitwise
import SlotMachine.Clvm.TreeHash

/-!
# Running CLVM programs

The registry actions run programs that come from their solutions: CAT makers
and pricing puzzles.  A `Machine` is what they need to do so: the hash and an
evaluator.  Results that hold for every program are proved over an arbitrary
machine; `Machine.clvm` is the machine whose evaluator is the CLVM interpreter
defined here, with a bound on the nesting depth in the place of the cost limit.

* `followPath` — an atom as a program: a path into the environment.
* `applyOperator` — the operators, on evaluated arguments.
* `run` — the interpreter, with `run_quote` and `run_path` for the two
  programs every other one is built from.
-/

namespace SlotMachine

namespace Clvm

/-- The two truth values. -/
def ofBool (b : Bool) : Clvm := if b then atom [1] else nil

/-- Take `steps` turns into a tree, right for an odd path and left for an even one. -/
def followPath : ℕ → ℕ → Clvm → Option Clvm
  | 0, _, env => some env
  | steps + 1, path, env => do
      let next ← if path % 2 = 1 then env.rest else env.first
      followPath steps (path / 2) next

/-- Look an atom up in the environment: zero is nil, and the leading one bit of
any other path marks where it ends. -/
def lookup (path : Bytes) (env : Clvm) : Option Clvm :=
  if natFromBytes path = 0 then some nil
  else followPath (natFromBytes path).log2 (natFromBytes path) env

/-- The bytes of `b` from position `i` up to `j`. -/
def substr (b : Bytes) (i j : ℤ) : Option Clvm :=
  if 0 ≤ i ∧ i ≤ j ∧ j ≤ b.length then some (atom ((b.take j.toNat).drop i.toNat)) else none

/-- Shift counts are limited to sixteen bits. -/
def shift (value count : ℤ) : Option Clvm :=
  if count.natAbs ≤ 65535 then
    some (ofInt (if 0 ≤ count then value * 2 ^ count.toNat else value / 2 ^ (-count).toNat))
  else none

/-- Division by zero raises; quotients round down. -/
def divide (a b : ℤ) : Option (ℤ × ℤ) := if b = 0 then none else some (a.fdiv b, a.fmod b)

/-- Read every argument as an integer. -/
def integers : List Clvm → Option (List ℤ)
  | [] => some []
  | v :: vs => do
      let b ← v.bytes?
      let zs ← integers vs
      return intFromBytes b :: zs

/-- Apply an operator to its evaluated arguments.  The signature operators,
which no puzzle of the repository uses, are left to `other`. -/
def applyOperator (H : HashOracle) (other : Bytes → List Clvm → Option Clvm) (op : Bytes)
    (args : List Clvm) : Option Clvm :=
  match op.map Fin.val, args with
  | [3], [c, a, b] => some (if c.truthy then a else b)
  | [4], [a, b] => some (pair a b)
  | [5], [a] => a.first
  | [6], [a] => a.rest
  | [7], [a] => some (ofBool a.uncons.isSome)
  | [8], _ => none
  | [9], [a, b] => (a.eq b).map ofBool
  | [10], [a, b] => (a.gtBytes b).map ofBool
  | [11], args => (H.hashAtoms args).map atom
  | [12], [a, i] => do
      let b ← a.bytes?
      substr b (intFromBytes (← i.bytes?)) b.length
  | [12], [a, i, j] => do
      substr (← a.bytes?) (intFromBytes (← i.bytes?)) (intFromBytes (← j.bytes?))
  | [13], [a] => do return ofInt (← a.bytes?).length
  | [14], args => (concatAtoms args).map atom
  | [16], args => (integers args).map fun zs => ofInt zs.sum
  | [17], args => (integers args).map fun zs => ofInt (zs.headD 0 - zs.tail.sum)
  | [18], args => (integers args).map fun zs => ofInt zs.prod
  | [19], [a, b] => do
      let qr ← divide (intFromBytes (← a.bytes?)) (intFromBytes (← b.bytes?))
      return ofInt qr.1
  | [20], [a, b] => do
      let qr ← divide (intFromBytes (← a.bytes?)) (intFromBytes (← b.bytes?))
      return pair (ofInt qr.1) (ofInt qr.2)
  | [21], [a, b] => do
      return ofBool (decide (intFromBytes (← b.bytes?) < intFromBytes (← a.bytes?)))
  | [22], [a, n] => do shift (intFromBytes (← a.bytes?)) (intFromBytes (← n.bytes?))
  | [23], [a, n] => do shift (natFromBytes (← a.bytes?)) (intFromBytes (← n.bytes?))
  | [24], args => (integers args).map fun zs => ofInt (zs.foldl Int.land (-1))
  | [25], args => (integers args).map fun zs => ofInt (zs.foldl Int.lor 0)
  | [26], args => (integers args).map fun zs => ofInt (zs.foldl Int.xor 0)
  | [27], [a] => do return ofInt (-intFromBytes (← a.bytes?) - 1)
  | [32], [a] => some (ofBool !a.truthy)
  | [33], args => some (ofBool (args.any truthy))
  | [34], args => some (ofBool (args.all truthy))
  | [48], [p, ph, a] => (H.coinid p ph a).map atom
  | [61], [a, b] => do
      let qr ← divide (intFromBytes (← a.bytes?)) (intFromBytes (← b.bytes?))
      return ofInt qr.2
  | _, args => other op args

/-- Evaluate an operand list with a given evaluator; the list must end in nil. -/
def evalOperands (eval : Clvm → Option Clvm) : Clvm → Option (List Clvm)
  | atom [] => some []
  | atom (_ :: _) => none
  | pair a rest => do
      let v ← eval a
      let vs ← evalOperands eval rest
      return v :: vs

/-- The operands themselves, unevaluated. -/
def operands : Clvm → Option (List Clvm) := evalOperands some

/-- Run a program in an environment, to a nesting depth of `fuel`. -/
def run (H : HashOracle) (other : Bytes → List Clvm → Option Clvm) : ℕ → Clvm → Clvm → Option Clvm
  | 0, _, _ => none
  | _ + 1, atom path, env => lookup path env
  | fuel + 1, pair (atom op) args, env =>
      if op = [1] then some args
      else do
        let vs ← evalOperands (fun p => run H other fuel p env) args
        if op = [2] then
          match vs with
          | [program, env'] => run H other fuel program env'
          | _ => none
        else applyOperator H other op vs
  | _ + 1, pair (pair (atom op) (atom [])) args, _ => do
      let vs ← operands args
      applyOperator H other op vs
  | _ + 1, pair (pair _ _) _, _ => none

/-- `(q . x)` returns `x`. -/
@[simp] theorem run_quote (H : HashOracle) (other : Bytes → List Clvm → Option Clvm) (fuel : ℕ)
    (x env : Clvm) : run H other (fuel + 1) (pair (atom [1]) x) env = some x := by
  simp [run]

/-- An atom is a path into the environment. -/
@[simp] theorem run_path (H : HashOracle) (other : Bytes → List Clvm → Option Clvm) (fuel : ℕ)
    (path : Bytes) (env : Clvm) : run H other (fuel + 1) (atom path) env = lookup path env := by
  simp [run]

end Clvm

/-! ## Machines -/

/-- What an action needs to run the programs of its solution. -/
structure Machine where
  hash : HashOracle
  eval : Clvm → Clvm → Option Clvm

namespace Machine

/-- The machine that interprets CLVM. -/
def clvm (H : HashOracle) (other : Bytes → List Clvm → Option Clvm) (fuel : ℕ) : Machine where
  hash := H
  eval := Clvm.run H other fuel

@[simp] theorem clvm_hash (H : HashOracle) (other : Bytes → List Clvm → Option Clvm) (fuel : ℕ) :
    (clvm H other fuel).hash = H := rfl

@[simp] theorem clvm_eval (H : HashOracle) (other : Bytes → List Clvm → Option Clvm) (fuel : ℕ) :
    (clvm H other fuel).eval = Clvm.run H other fuel := rfl

end Machine

end SlotMachine
