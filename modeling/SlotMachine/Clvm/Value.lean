import Mathlib.Data.List.Lex
import Mathlib.Order.Fin.Basic
import Mathlib.Data.Nat.Log
import Mathlib.Tactic

/-!
# CLVM values

The values every puzzle of the repository computes with: binary trees whose
leaves are byte strings.  This file fixes the data type, the reading of an atom
as a signed big-endian integer, and the operators the Rue and Chialisp sources
use on values.  An operator that raises on the chain returns `none` here.

* `intFromBytes` / `intToBytes` — the integer reading of an atom and the
  canonical atom of an integer, with `intFromBytes_intToBytes`.
* `Clvm.uncons`, `Clvm.bytes?` — the two ways a program takes a value apart;
  each raises on the other shape.
* `Clvm.add`, `Clvm.eq`, `Clvm.gtBytes`, `concatAtoms` — the operators `+`,
  `=`, `>s` and `concat`.
-/

namespace SlotMachine

/-- One byte of an atom. -/
abbrev Byte := Fin 256

/-- There are bytes, and numbers below 256 are literals of them. -/
instance Byte.neZero : NeZero (256 : ℕ) := ⟨by decide⟩

/-- The contents of an atom.  The order on byte strings is the lexicographic
one, which is the order of the operator `>s`. -/
abbrev Bytes := List Byte

instance Bytes.lawfulBEq : LawfulBEq Bytes := inferInstance

/-! ## Integers as byte strings -/

/-- The unsigned big-endian reading of a byte string. -/
def natFromBytes (bs : Bytes) : ℕ := bs.foldl (fun acc b => acc * 256 + b.val) 0

/-- The lowest `len` bytes of `n`, most significant first. -/
def natToBytes : ℕ → ℕ → Bytes
  | 0, _ => []
  | len + 1, n => Fin.ofNat 256 (n / 256 ^ len) :: natToBytes len n

/-- The signed (two's complement) big-endian reading of an atom. -/
def intFromBytes (bs : Bytes) : ℤ :=
  if 2 * natFromBytes bs < 256 ^ bs.length then (natFromBytes bs : ℤ)
  else (natFromBytes bs : ℤ) - 256 ^ bs.length

/-- The number of bytes of the canonical atom of an integer: none for zero, and
otherwise just enough to leave room for the sign bit. -/
def intSize (z : ℤ) : ℕ :=
  if z = 0 then 0
  else ((if 0 ≤ z then z.toNat else (-z - 1).toNat).log2 + 1) / 8 + 1

/-- The canonical atom of an integer. -/
def intToBytes (z : ℤ) : Bytes := natToBytes (intSize z) (z % 256 ^ intSize z).toNat

@[simp] theorem length_natToBytes (len n : ℕ) : (natToBytes len n).length = len := by
  induction len with
  | zero => rfl
  | succ len ih => rw [natToBytes, List.length_cons, ih]

theorem foldl_natToBytes (len n acc : ℕ) :
    (natToBytes len n).foldl (fun acc b => acc * 256 + b.val) acc
      = acc * 256 ^ len + n % 256 ^ len := by
  induction len generalizing acc with
  | zero => simp [natToBytes, Nat.mod_one]
  | succ len ih =>
      rw [natToBytes, List.foldl_cons, ih, Fin.val_ofNat, pow_succ, Nat.mod_mul]
      ring

theorem natFromBytes_natToBytes (len n : ℕ) :
    natFromBytes (natToBytes len n) = n % 256 ^ len := by
  rw [natFromBytes, foldl_natToBytes, Nat.zero_mul, Nat.zero_add]

theorem natFromBytes_concat (bs : Bytes) (b : Byte) :
    natFromBytes (bs ++ [b]) = natFromBytes bs * 256 + b.val := by
  rw [natFromBytes, List.foldl_append]
  rfl

/-- With a leading one, the number determines the bytes. -/
theorem natFromBytes_one_cons_injective :
    Function.Injective fun bs : Bytes => natFromBytes (1 :: bs) := by
  have hpos : ∀ bs : Bytes, 0 < natFromBytes (1 :: bs) := by
    intro bs
    induction bs using List.reverseRecOn with
    | nil => decide
    | append_singleton bs b ih =>
        rw [← List.cons_append, natFromBytes_concat]
        omega
  have hnil : natFromBytes [1] = 1 := rfl
  intro bs cs h
  simp only at h
  induction bs using List.reverseRecOn generalizing cs with
  | nil =>
      induction cs using List.reverseRecOn with
      | nil => rfl
      | append_singleton cs c =>
          rw [← List.cons_append, natFromBytes_concat, hnil] at h
          have := hpos cs
          omega
  | append_singleton bs b ih =>
      induction cs using List.reverseRecOn with
      | nil =>
          rw [← List.cons_append, natFromBytes_concat, hnil] at h
          have := hpos bs
          omega
      | append_singleton cs c =>
          rw [← List.cons_append, ← List.cons_append, natFromBytes_concat,
            natFromBytes_concat] at h
          have hb := b.isLt
          have hc := c.isLt
          obtain rfl : b = c := Fin.ext (by omega)
          obtain rfl := @ih cs (by omega)
          rfl

/-- The canonical size leaves room for the sign: the integer lies strictly
inside the signed range of that many bytes. -/
theorem two_mul_lt_pow_intSize {z : ℤ} (hz : z ≠ 0) :
    -(256 : ℤ) ^ intSize z ≤ 2 * z ∧ 2 * z < (256 : ℤ) ^ intSize z := by
  set m : ℕ := if 0 ≤ z then z.toNat else (-z - 1).toNat with hm
  have hsize : intSize z = (m.log2 + 1) / 8 + 1 := by rw [intSize, if_neg hz]
  have hlt : m < 2 ^ (m.log2 + 1) := Nat.lt_log2_self
  have hexp : m.log2 + 1 + 1 ≤ 8 * intSize z := by omega
  have hpow : 2 * m + 2 ≤ 256 ^ intSize z := by
    have h1 : 2 ^ (m.log2 + 1 + 1) ≤ 2 ^ (8 * intSize z) := Nat.pow_le_pow_right (by norm_num) hexp
    rw [pow_mul] at h1
    norm_num at h1
    rw [pow_succ] at h1
    omega
  have hpow' : (2 * m + 2 : ℤ) ≤ (256 : ℤ) ^ intSize z := by exact_mod_cast hpow
  by_cases h0 : 0 ≤ z
  · rw [if_pos h0] at hm
    omega
  · rw [if_neg h0] at hm
    omega

/-- Reading the canonical atom of an integer gives the integer back. -/
@[simp] theorem intFromBytes_intToBytes (z : ℤ) : intFromBytes (intToBytes z) = z := by
  by_cases hz : z = 0
  · subst hz
    rfl
  obtain ⟨hlo, hhi⟩ := two_mul_lt_pow_intSize hz
  set p : ℤ := (256 : ℤ) ^ intSize z with hp
  have hppos : 0 < p := by positivity
  have hnat : natFromBytes (intToBytes z) = (z % p).toNat := by
    rw [intToBytes, natFromBytes_natToBytes, Nat.mod_eq_of_lt]
    have hmod := Int.emod_lt_of_pos z hppos
    have : ((z % p).toNat : ℤ) < (256 : ℤ) ^ intSize z := by
      rw [Int.toNat_of_nonneg (Int.emod_nonneg z hppos.ne')]; exact hmod
    exact_mod_cast this
  have hval : ((z % p).toNat : ℤ) = z % p := Int.toNat_of_nonneg (Int.emod_nonneg z hppos.ne')
  have hlen : (intToBytes z).length = intSize z := length_natToBytes _ _
  rw [intFromBytes, hnat, hlen, hval]
  have hcast : (2 * (z % p).toNat < 256 ^ intSize z) ↔ 2 * (z % p) < p := by
    rw [← hval, hp]; norm_cast
  by_cases h0 : 0 ≤ z
  · have hmod : z % p = z := Int.emod_eq_of_lt h0 (by omega)
    rw [if_pos (hcast.2 (by rw [hmod]; exact hhi)), hmod]
  · have hmod : z % p = z + p := by
      rw [← Int.add_emod_right, Int.emod_eq_of_lt (by omega) (by omega)]
    rw [if_neg (fun h => by have := hcast.1 h; rw [hmod] at this; omega), hmod, ← hp]
    ring

theorem intToBytes_injective : Function.Injective intToBytes := fun a b h => by
  rw [← intFromBytes_intToBytes a, h, intFromBytes_intToBytes]

/-- A natural number is also what the unsigned reading of its atom gives back. -/
@[simp] theorem natFromBytes_intToBytes (n : ℕ) : natFromBytes (intToBytes n) = n := by
  have hlt : (n : ℤ) < 256 ^ intSize n := by
    by_cases hn : (n : ℤ) = 0
    · rw [hn]
      positivity
    · have := (two_mul_lt_pow_intSize hn).2
      omega
  have hmod : (n : ℤ) % 256 ^ intSize n = n := Int.emod_eq_of_lt (Int.natCast_nonneg n) hlt
  have hlt' : n < 256 ^ intSize n := by exact_mod_cast hlt
  rw [intToBytes, natFromBytes_natToBytes, hmod, Int.toNat_natCast, Nat.mod_eq_of_lt hlt']

/-! ## Trees -/

/-- A CLVM value: an atom or a pair. -/
inductive Clvm where
  | atom (bytes : Bytes)
  | pair (first rest : Clvm)
  deriving DecidableEq, Repr, Inhabited

namespace Clvm

/-- The empty atom: nil, zero and false. -/
def nil : Clvm := atom []

/-- The canonical atom of an integer. -/
def ofInt (z : ℤ) : Clvm := atom (intToBytes z)

/-- A proper, nil-terminated list. -/
def ofList : List Clvm → Clvm
  | [] => nil
  | x :: xs => pair x (ofList xs)

/-- `if` takes its second branch on nil only. -/
def truthy (v : Clvm) : Bool := v != nil

/-- Split a pair; an atom raises ("path into atom"). -/
def uncons : Clvm → Option (Clvm × Clvm)
  | atom _ => none
  | pair a b => some (a, b)

/-- `f`. -/
def first : Clvm → Option Clvm
  | atom _ => none
  | pair a _ => some a

/-- `r`. -/
def rest : Clvm → Option Clvm
  | atom _ => none
  | pair _ b => some b

/-- The contents of an atom; a pair raises. -/
def bytes? : Clvm → Option Bytes
  | atom b => some b
  | pair _ _ => none

/-- The operator `+`. -/
def add (a b : Clvm) : Option Clvm := do
  let x ← a.bytes?
  let y ← b.bytes?
  return ofInt (intFromBytes x + intFromBytes y)

/-- `counter + 1`. -/
def increment (a : Clvm) : Option Clvm := a.add (atom [1])

/-- `"c" + hash`: a message or announcement with its one-letter tag. -/
def tagged (tag : Char) (b : Bytes) : Clvm := atom (Fin.ofNat 256 tag.toNat :: b)

/-- The operator `=`, which compares atoms only. -/
def eq (a b : Clvm) : Option Bool := do
  let x ← a.bytes?
  let y ← b.bytes?
  return decide (x = y)

/-- The operator `>s`: `a` comes after `b` in byte order. -/
def gtBytes (a b : Clvm) : Option Bool := do
  let x ← a.bytes?
  let y ← b.bytes?
  return decide (y < x)

@[simp] theorem uncons_pair (a b : Clvm) : (pair a b).uncons = some (a, b) := rfl

@[simp] theorem first_pair (a b : Clvm) : (pair a b).first = some a := rfl

@[simp] theorem rest_pair (a b : Clvm) : (pair a b).rest = some b := rfl

@[simp] theorem bytes?_atom (b : Bytes) : (atom b).bytes? = some b := rfl

theorem uncons_eq_some {v a b : Clvm} : v.uncons = some (a, b) ↔ v = pair a b := by
  cases v <;> simp [uncons]

theorem first_eq_some {v a : Clvm} : v.first = some a ↔ ∃ b, v = pair a b := by
  cases v <;> simp [first]

theorem bytes?_eq_some {v : Clvm} {b : Bytes} : v.bytes? = some b ↔ v = atom b := by
  cases v <;> simp [bytes?]

theorem eq_atom_of_bytes (v : Clvm) (b : Bytes) (h : v.bytes? = some b) : v = atom b :=
  bytes?_eq_some.1 h

theorem add_eq_some {a b c : Clvm} :
    a.add b = some c ↔
      ∃ x y, a = atom x ∧ b = atom y ∧ c = ofInt (intFromBytes x + intFromBytes y) := by
  simp only [add, Option.bind_eq_bind, Option.bind_eq_some_iff, bytes?_eq_some, Option.pure_def,
    Option.some.injEq]
  constructor
  · rintro ⟨x, hx, y, hy, rfl⟩; exact ⟨x, y, hx, hy, rfl⟩
  · rintro ⟨x, y, hx, hy, rfl⟩; exact ⟨x, hx, y, hy, rfl⟩

@[simp] theorem add_atom (x y : Bytes) :
    (atom x).add (atom y) = some (ofInt (intFromBytes x + intFromBytes y)) := rfl

theorem add_ofInt (x y : ℤ) : (ofInt x).add (ofInt y) = some (ofInt (x + y)) := by
  unfold ofInt
  rw [add_atom, intFromBytes_intToBytes, intFromBytes_intToBytes]
  rfl

protected theorem add_comm (a b : Clvm) : a.add b = b.add a := by
  cases a <;> cases b <;> simp [add, bytes?, Int.add_comm]

theorem increment_eq_some {a c : Clvm} :
    a.increment = some c ↔ ∃ x, a = atom x ∧ c = ofInt (intFromBytes x + 1) := by
  have hone : intFromBytes [1] = 1 := by decide
  rw [increment, add_eq_some]
  constructor
  · rintro ⟨x, y, rfl, hy, rfl⟩
    obtain rfl : [1] = y := atom.inj hy
    exact ⟨x, rfl, by rw [hone]⟩
  · rintro ⟨x, rfl, rfl⟩
    exact ⟨x, [1], rfl, rfl, by rw [hone]⟩

theorem eq_eq_some_true {a b : Clvm} : a.eq b = some true ↔ ∃ x, a = atom x ∧ b = atom x := by
  cases a <;> cases b <;> simp [eq, bytes?, eq_comm]

theorem eq_eq_some {a b : Clvm} {r : Bool} :
    a.eq b = some r ↔ ∃ x y, a = atom x ∧ b = atom y ∧ r = decide (x = y) := by
  cases a <;> cases b <;> simp [eq, bytes?, eq_comm]

@[simp] theorem eq_atom (x : Bytes) : (atom x).eq (atom x) = some true := by
  simp [eq]

theorem gtBytes_atom {x y : Bytes} (h : y < x) : (atom x).gtBytes (atom y) = some true := by
  simp [gtBytes, h]

theorem increment_atom (x : Bytes) : (atom x).increment = some (ofInt (intFromBytes x + 1)) :=
  increment_eq_some.2 ⟨x, rfl, rfl⟩

theorem eq_nil_of_not_truthy {v : Clvm} (h : (!v.truthy) = true) : v = nil := by
  simpa [truthy] using h

theorem gtBytes_eq_some_true {a b : Clvm} :
    a.gtBytes b = some true ↔ ∃ x y, a = atom x ∧ b = atom y ∧ y < x := by
  cases a <;> cases b <;> simp [gtBytes, bytes?]

end Clvm

/-- The operator `concat`, without its result's atom: the contents of all
arguments in order, raising on a pair. -/
def concatAtoms : List Clvm → Option Bytes
  | [] => some []
  | v :: vs => do
      let x ← v.bytes?
      let xs ← concatAtoms vs
      return x ++ xs

@[simp] theorem concatAtoms_nil : concatAtoms [] = some [] := rfl

@[simp] theorem concatAtoms_atom_cons (x : Bytes) (vs : List Clvm) :
    concatAtoms (Clvm.atom x :: vs) = (concatAtoms vs).map (x ++ ·) := by
  cases h : concatAtoms vs <;> simp [concatAtoms, h]

/-- The value of a computation is the value of its last step. -/
theorem bind_intro {α β : Type} {x : Option α} {f : α → Option β} {a : α} {b : β}
    (hx : x = some a) (hf : f a = some b) : (x >>= f) = some b :=
  Option.bind_eq_some_iff.2 ⟨a, hx, hf⟩

/-- A computation that has a value has a first step that has one. -/
theorem bind_elim {α β : Type} {x : Option α} {f : α → Option β} {b : β}
    (h : (x >>= f) = some b) : ∃ a, x = some a ∧ f a = some b :=
  Option.bind_eq_some_iff.1 h

/-- `assert`: go on only if the condition holds. -/
def assertThat (b : Bool) : Option Unit := if b then some () else none

@[simp] theorem assertThat_eq_some {b : Bool} {u : Unit} : assertThat b = some u ↔ b = true := by
  cases b <;> simp [assertThat]

@[simp] theorem assertThat_true : assertThat true = some () := rfl

end SlotMachine
