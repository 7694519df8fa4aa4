import Mathlib.Data.Nat.Notation
import SlotMachine.Listener.HandleGrammar

/-!
# The cursors of the directory

A page of the directory ends with a cursor, the text of the expiration and the handle of its
last row.  A text that is no cursor counts as none.

* `encodeCursor`, `decodeCursor` — the text, and what it is read as (`listener/api.rs`).
* `decodeCursor_encodeCursor` — **a cursor is read as what it was written for**, if its
  handle is canonical, and as none otherwise.
-/

namespace SlotMachine.Listener

/-- The bytes of a text. -/
def utf8Bytes (s : String) : Bytes := (s.toList.flatMap String.utf8EncodeChar).map UInt8.toFin

/-- `str::split_once`. -/
def splitOnce (c : Char) (s : List Char) : Option (List Char × List Char) :=
  match s.dropWhile (· ≠ c) with
  | [] => none
  | _ :: rest => some (s.takeWhile (· ≠ c), rest)

/-- The digits of a number, behind its sign. -/
def unsigned : List Char → List Char
  | '+' :: digits => digits
  | digits => digits

/-- `u64::from_str`. -/
def parseU64 (s : List Char) : Option ℕ :=
  let digits := unsigned s
  if digits ≠ [] ∧ digits.all Char.isDigit ∧ Nat.ofDigitChars 10 digits 0 < 2 ^ 64 then
    some (Nat.ofDigitChars 10 digits 0)
  else none

/-- `encode_cursor`. -/
def encodeCursor (expiration : ℕ) (handle : String) : String :=
  "v1." ++ toString expiration ++ "." ++ handle

/-- `decode_cursor`. -/
def decodeCursor (cursor : String) : Option (ℕ × String) := do
  let rest ← "v1.".toList.isPrefixOf? cursor.toList
  let (expirationRaw, handle) ← splitOnce '.' rest
  let expiration ← parseU64 expirationRaw
  if isCanonicalHandle (utf8Bytes (String.ofList handle)) then
    some (expiration, String.ofList handle)
  else none

/-! ## The round trip -/

/-- The part before the first separator, and the part behind it. -/
theorem splitOnce_append {c : Char} {before : List Char} (h : c ∉ before) (rest : List Char) :
    splitOnce c (before ++ c :: rest) = some (before, rest) := by
  have hall : ∀ x ∈ before, decide (x ≠ c) = true := by
    intro x hx
    refine decide_eq_true fun heq => h ?_
    rw [← heq]
    exact hx
  unfold splitOnce
  rw [List.dropWhile_append_of_pos hall, List.takeWhile_append_of_pos hall,
    List.dropWhile_cons_of_neg (by simp), List.takeWhile_cons_of_neg (by simp), List.append_nil]

theorem isDigit_of_mem_toDigits {n : ℕ} {c : Char} (h : c ∈ Nat.toDigits 10 n) : c.isDigit = true :=
  Nat.isDigit_of_mem_toDigits (by decide) le_rfl h

/-- A number that is written has no sign. -/
theorem unsigned_toDigits (n : ℕ) : unsigned (Nat.toDigits 10 n) = Nat.toDigits 10 n := by
  unfold unsigned
  split
  · next digits heq =>
      have hplus : '+' ∈ Nat.toDigits 10 n := by
        rw [heq]
        exact List.mem_cons_self
      exact absurd (isDigit_of_mem_toDigits hplus) (by decide)
  · rfl

theorem parseU64_toDigits {n : ℕ} (h : n < 2 ^ 64) : parseU64 (Nat.toDigits 10 n) = some n := by
  unfold parseU64
  simp only [unsigned_toDigits, Nat.ofDigitChars_ten_toDigits]
  exact if_pos ⟨Nat.toDigits_ne_nil, List.all_eq_true.2 fun _ => isDigit_of_mem_toDigits, h⟩

/-- **A cursor is read as what it was written for.** -/
theorem decodeCursor_encodeCursor {expiration : ℕ} (h : expiration < 2 ^ 64) (handle : String) :
    decodeCursor (encodeCursor expiration handle)
      = if isCanonicalHandle (utf8Bytes handle) then some (expiration, handle) else none := by
  have hlist : (encodeCursor expiration handle).toList
      = "v1.".toList ++ (Nat.toDigits 10 expiration ++ '.' :: handle.toList) := by
    unfold encodeCursor
    simp only [String.toList_append, Nat.toString_eq_repr, Nat.toList_repr, List.append_assoc]
    rfl
  have hdot : '.' ∉ Nat.toDigits 10 expiration := fun hmem =>
    absurd (isDigit_of_mem_toDigits hmem) (by decide)
  unfold decodeCursor
  rw [hlist]
  show (splitOnce '.' (Nat.toDigits 10 expiration ++ '.' :: handle.toList)).bind _ = _
  rw [splitOnce_append hdot]
  show (parseU64 (Nat.toDigits 10 expiration)).bind _ = _
  rw [parseU64_toDigits h, String.ofList_toList]
  rfl

/-- The cursor of a short handle, and ones that are not read. -/
example : decodeCursor "v1.20.alice" = some (20, "alice") ∧ decodeCursor "v1.20.Al" = none ∧
    decodeCursor "v1.18446744073709551616.alice" = none ∧ decodeCursor "20.alice" = none := by
  decide +kernel

end SlotMachine.Listener
