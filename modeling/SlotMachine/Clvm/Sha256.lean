import SlotMachine.Clvm.Value

/-!
# SHA-256

The operator `sha256`, in two forms.

* `Sha256.hash` is the function itself (FIPS 180-4), computed on byte strings.
* `HashOracle` is the hash as a history of the chain sees it: a table of
  32-byte digests, defined on the byte strings the history hashes.  A model
  function that hashes something outside the table returns `none`.  The usual
  assumption that nobody finds a collision is then `HashOracle.CollisionFree`,
  which `Sha256.hash` restricted to any finite list of queries without a
  collision satisfies (`HashOracle.ofQueries`), although no function from all
  byte strings to 32 bytes is injective.
-/

namespace SlotMachine

namespace Sha256

/-! ## The compression function

Everything is computed on natural numbers: a message is one number, and a word
is read off it by shifting. -/

/-- The eight words of the chaining value. -/
abbrev State := ℕ × ℕ × ℕ × ℕ × ℕ × ℕ × ℕ × ℕ

/-- The round constants. -/
def roundConstants : List ℕ :=
  [0x428a2f98, 0x71374491, 0xb5c0fbcf, 0xe9b5dba5, 0x3956c25b, 0x59f111f1, 0x923f82a4, 0xab1c5ed5,
   0xd807aa98, 0x12835b01, 0x243185be, 0x550c7dc3, 0x72be5d74, 0x80deb1fe, 0x9bdc06a7, 0xc19bf174,
   0xe49b69c1, 0xefbe4786, 0x0fc19dc6, 0x240ca1cc, 0x2de92c6f, 0x4a7484aa, 0x5cb0a9dc, 0x76f988da,
   0x983e5152, 0xa831c66d, 0xb00327c8, 0xbf597fc7, 0xc6e00bf3, 0xd5a79147, 0x06ca6351, 0x14292967,
   0x27b70a85, 0x2e1b2138, 0x4d2c6dfc, 0x53380d13, 0x650a7354, 0x766a0abb, 0x81c2c92e, 0x92722c85,
   0xa2bfe8a1, 0xa81a664b, 0xc24b8b70, 0xc76c51a3, 0xd192e819, 0xd6990624, 0xf40e3585, 0x106aa070,
   0x19a4c116, 0x1e376c08, 0x2748774c, 0x34b0bcb5, 0x391c0cb3, 0x4ed8aa4a, 0x5b9cca4f, 0x682e6ff3,
   0x748f82ee, 0x78a5636f, 0x84c87814, 0x8cc70208, 0x90befffa, 0xa4506ceb, 0xbef9a3f7, 0xc67178f2]

/-- The initial chaining value. -/
def initial : State :=
  (0x6a09e667, 0xbb67ae85, 0x3c6ef372, 0xa54ff53a, 0x510e527f, 0x9b05688c, 0x1f83d9ab, 0x5be0cd19)

/-- Words are 32 bits wide. -/
def word (x : ℕ) : ℕ := x.mod 4294967296

/-- Rotate a word right. -/
def rotr (n x : ℕ) : ℕ := (x.shiftRight n).lor (word (x.shiftLeft (Nat.sub 32 n)))

/-- The word of a number with `k` words below it. -/
def wordAt (n k : ℕ) : ℕ := word (n.shiftRight (Nat.mul 32 k))

/-- One round for each round constant.  `w0` to `w15` are the next sixteen words
of the message schedule; a round uses the first one and computes the one after
the last. -/
def rounds : List ℕ → (a b c d e f g h : ℕ) →
    (w0 w1 w2 w3 w4 w5 w6 w7 w8 w9 w10 w11 w12 w13 w14 w15 : ℕ) → State
  | [], a, b, c, d, e, f, g, h, _, _, _, _, _, _, _, _, _, _, _, _, _, _, _, _ =>
      (a, b, c, d, e, f, g, h)
  | k :: ks, a, b, c, d, e, f, g, h,
      w0, w1, w2, w3, w4, w5, w6, w7, w8, w9, w10, w11, w12, w13, w14, w15 =>
      let s1 := ((rotr 6 e).xor (rotr 11 e)).xor (rotr 25 e)
      let ch := (e.land f).xor ((Nat.sub 4294967295 e).land g)
      let t1 := (((h.add s1).add ch).add k).add w0
      let s0 := ((rotr 2 a).xor (rotr 13 a)).xor (rotr 22 a)
      let maj := ((a.land b).xor (a.land c)).xor (b.land c)
      let z0 := ((rotr 7 w1).xor (rotr 18 w1)).xor (w1.shiftRight 3)
      let z1 := ((rotr 17 w14).xor (rotr 19 w14)).xor (w14.shiftRight 10)
      let w16 := word (((w0.add z0).add w9).add z1)
      rounds ks (word (t1.add (s0.add maj))) a b c (word (d.add t1)) e f g
        w1 w2 w3 w4 w5 w6 w7 w8 w9 w10 w11 w12 w13 w14 w15 w16

/-- Absorb the block whose word `i` is `w i`. -/
def block (s : State) (w : ℕ → ℕ) : State :=
  match s with
  | (a, b, c, d, e, f, g, h) =>
      match rounds roundConstants a b c d e f g h (w 0) (w 1) (w 2) (w 3) (w 4) (w 5) (w 6) (w 7)
        (w 8) (w 9) (w 10) (w 11) (w 12) (w 13) (w 14) (w 15) with
      | (a', b', c', d', e', f', g', h') =>
          (word (a.add a'), word (b.add b'), word (c.add c'), word (d.add d'),
            word (e.add e'), word (f.add f'), word (g.add g'), word (h.add h'))

/-- Absorb the lowest `n` blocks of a number, the highest of them first. -/
def blocks : ℕ → ℕ → State → State
  | 0, _, s => s
  | n + 1, m, s => blocks n m (block s fun i => wordAt m (Nat.sub (16 * n + 15) i))

/-- The number of blocks of a message of `len` bytes. -/
def blockCount (len : ℕ) : ℕ := (len + 72) / 64

/-- The message, a one bit, zeros up to the last eight bytes of a block, and
the length in bits, as one number. -/
def padded (m : Bytes) : ℕ :=
  (natFromBytes m * 256 + 128) * 256 ^ (64 * blockCount m.length - m.length - 1) + m.length * 8

/-- The words of a chaining value as one number. -/
def join : State → ℕ
  | (a, b, c, d, e, f, g, h) => natFromWords [a, b, c, d, e, f, g, h]
where
  natFromWords (ws : List ℕ) : ℕ := ws.foldl (fun acc w => acc * 4294967296 + w) 0

/-- SHA-256 of a byte string. -/
def hash (m : Bytes) : Bytes :=
  natToBytes 32 (join (blocks (blockCount m.length) (padded m) initial))

theorem length_hash (m : Bytes) : (hash m).length = 32 := length_natToBytes _ _

-- a digest is computed in the kernel only, never by unification
attribute [irreducible] hash

/-- The prefix `02 sha256(01 02)` that the curry library lists for the keyword `a`. -/
example : (hash [1, 2]).take 4 = [0xa1, 0x28, 0x71, 0xfe] := by decide +kernel

end Sha256

/-! ## The hash as a history sees it -/

/-- A table of SHA-256 digests: the byte strings some history has hashed, with
their digests.  Digests are 32 bytes long. -/
structure HashOracle where
  digest : Bytes → Option Bytes
  length_digest : ∀ {m d : Bytes}, digest m = some d → d.length = 32

namespace HashOracle

/-- No two byte strings of the table have one digest. -/
def CollisionFree (H : HashOracle) : Prop :=
  ∀ ⦃m m' d : Bytes⦄, H.digest m = some d → H.digest m' = some d → m = m'

/-- The table holds every byte string. -/
def Total (H : HashOracle) : Prop := ∀ m : Bytes, ∃ d, H.digest m = some d

/-- SHA-256 on all byte strings. -/
def sha256 : HashOracle where
  digest m := some (Sha256.hash m)
  length_digest h := by
    rw [← Option.some.inj h]
    exact Sha256.length_hash _

theorem sha256_total : sha256.Total := fun m => ⟨Sha256.hash m, rfl⟩

/-- SHA-256 on a finite list of queries. -/
def ofQueries (qs : List Bytes) : HashOracle where
  digest m := if m ∈ qs then some (Sha256.hash m) else none
  length_digest {m d} h := by
    split at h
    · rw [← Option.some.inj h]
      exact Sha256.length_hash _
    · exact absurd h (by simp)

theorem digest_ofQueries {qs : List Bytes} {m : Bytes} (h : m ∈ qs) :
    (ofQueries qs).digest m = some (Sha256.hash m) := if_pos h

/-- A byte string as a number, with its length marked by a leading one. -/
def number (m : Bytes) : ℕ := natFromBytes (1 :: m)

/-- Messages by their digests, as a search tree. -/
inductive Index where
  | leaf
  | node (left : Index) (d m : ℕ) (right : Index)

namespace Index

/-- The message with the digest `d`. -/
def find (d : ℕ) : Index → Option ℕ
  | leaf => none
  | node l d' m r =>
      match d.beq d' with
      | true => some m
      | false =>
          match d.ble d' with
          | true => l.find d
          | false => r.find d

/-- Add a message, unless another one has its digest.  Numbers are compared
with `Nat.beq` and `Nat.ble`, which are fast in the kernel. -/
def insert (d m : ℕ) : Index → Option Index
  | leaf => some (node leaf d m leaf)
  | node l d' m' r =>
      match d.beq d' with
      | true =>
          match m.beq m' with
          | true => some (node l d' m' r)
          | false => none
      | false =>
          match d.ble d' with
          | true => (l.insert d m).map fun l' => node l' d' m' r
          | false => (r.insert d m).map fun r' => node l d' m' r'

theorem find_insert {d m : ℕ} {t t' : Index} (h : t.insert d m = some t') :
    t'.find d = some m := by
  induction t generalizing t' with
  | leaf =>
      cases h
      simp [find]
  | node l d' m' r ihl ihr =>
      rw [insert] at h
      split at h
      · rename_i hd
        split at h
        · rename_i hm
          cases h
          simp [find, hd, Nat.eq_of_beq_eq_true hm]
        · cases h
      · rename_i hd
        split at h
        · rename_i hle
          obtain ⟨l', hl, rfl⟩ := Option.map_eq_some_iff.1 h
          simp [find, hd, hle, ihl hl]
        · rename_i hle
          obtain ⟨r', hr, rfl⟩ := Option.map_eq_some_iff.1 h
          simp [find, hd, hle, ihr hr]

/-- What was found is found again. -/
theorem find_insert_of_find {d m d₁ m₁ : ℕ} {t t' : Index} (h : t.insert d m = some t')
    (h₁ : t.find d₁ = some m₁) : t'.find d₁ = some m₁ := by
  induction t generalizing t' with
  | leaf => cases h₁
  | node l d' m' r ihl ihr =>
      rw [insert] at h
      split at h
      · split at h
        · cases h
          exact h₁
        · cases h
      · split at h
        · obtain ⟨l', hl, rfl⟩ := Option.map_eq_some_iff.1 h
          rw [find] at h₁ ⊢
          split at h₁
          · exact h₁
          · split at h₁
            · exact ihl hl h₁
            · exact h₁
        · obtain ⟨r', hr, rfl⟩ := Option.map_eq_some_iff.1 h
          rw [find] at h₁ ⊢
          split at h₁
          · exact h₁
          · split at h₁
            · exact h₁
            · exact ihr hr h₁

/-- Add all messages of a list. -/
def insertAll : List (ℕ × ℕ) → Index → Option Index
  | [], t => some t
  | (d, m) :: es, t =>
      match t.insert d m with
      | some t' => insertAll es t'
      | none => none

theorem find_insertAll {es : List (ℕ × ℕ)} {t t' : Index} (h : insertAll es t = some t') :
    (∀ d m, (d, m) ∈ es → t'.find d = some m) ∧
      ∀ d m, t.find d = some m → t'.find d = some m := by
  induction es generalizing t with
  | nil =>
      cases h
      exact ⟨fun _ _ hmem => absurd hmem List.not_mem_nil, fun _ _ hfind => hfind⟩
  | cons e es ih =>
      obtain ⟨d, m⟩ := e
      rw [insertAll] at h
      split at h
      · rename_i hinsert
        obtain ⟨hes, hkeep⟩ := ih h
        refine ⟨fun d₁ m₁ hmem => ?_, fun d₁ m₁ hfind => ?_⟩
        · rcases List.mem_cons.1 hmem with he | hmem
          · obtain ⟨rfl, rfl⟩ := Prod.mk.inj he
            exact hkeep _ _ (find_insert hinsert)
          · exact hes d₁ m₁ hmem
        · exact hkeep _ _ (find_insert_of_find hinsert hfind)
      · cases h

end Index

/-- No two messages of the list have one digest. -/
def noCollisions (es : List (ℕ × ℕ)) : Bool :=
  match Index.insertAll es .leaf with
  | some _ => true
  | none => false

theorem eq_of_noCollisions {es : List (ℕ × ℕ)} (h : noCollisions es = true) {d m m' : ℕ}
    (hm : (d, m) ∈ es) (hm' : (d, m') ∈ es) : m = m' := by
  rw [noCollisions] at h
  split at h
  · rename_i hall
    have hfind := (Index.find_insertAll hall).1
    exact Option.some.inj ((hfind d m hm).symm.trans (hfind d m' hm'))
  · cases h

/-- The digests and the messages of some queries. -/
def entries (qs : List Bytes) : List (ℕ × ℕ) := qs.map fun q => (number (Sha256.hash q), number q)

/-- Queries that do not collide give a table without collisions. -/
theorem ofQueries_collisionFree {qs : List Bytes} (h : noCollisions (entries qs) = true) :
    (ofQueries qs).CollisionFree := by
  intro m m' d hm hm'
  simp only [ofQueries, Option.ite_none_right_eq_some, Option.some.injEq] at hm hm'
  have hentry : ∀ q ∈ qs, Sha256.hash q = d → (number d, number q) ∈ entries qs := by
    rintro q hq rfl
    exact List.mem_map_of_mem hq
  exact natFromBytes_one_cons_injective
    (eq_of_noCollisions h (hentry m hm.1 hm.2) (hentry m' hm'.1 hm'.2))

end HashOracle

end SlotMachine
