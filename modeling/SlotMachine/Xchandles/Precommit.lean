import SlotMachine.Puzzles.Precommit
import SlotMachine.Xchandles.Expire
import SlotMachine.Xchandles.Refund
import SlotMachine.Xchandles.Register

/-!
# XCHandles: openings of precommit coins

`register`, `expire` and `refund` each rebuild the puzzle hash of a precommit
coin from their solutions.  What they rebuild it from is an `Opening` of the
coin.  A CAT maker that binds the inner puzzle leaves a coin only one opening
(`Makes.unique`), so whatever the three actions reveal about one coin is the
same.

* `Makes` — a CAT maker makes a coin from an opening.
* `RegisterRun.makes`, `ExpireRun.makes`, `RefundRun.makes` — the openings the
  actions reveal.
* `RegisterRun.send_mem`, `ExpireRun.send_mem`, `RefundRun.send_mem` — the coin
  that each of them sends its message to.
-/

namespace SlotMachine.Xchandles

/-- What a precommit coin commits to, and whom it refunds. -/
structure Opening where
  refundPuzzleHashHash : Clvm
  value : PrecommitValue
  deriving DecidableEq

/-- A CAT maker makes a coin with the given opening, when it is run with
`solution`. -/
def Makes (M : Machine) (K : Constants) (maker solution : Clvm) (o : Opening) (ph : Bytes) :
    Prop :=
  ∃ inner, precommitInnerPuzzleHash M.hash K o.refundPuzzleHashHash o.value = some inner ∧
    runCatMaker M maker inner solution = some ph

/-- **A precommit coin has one opening.** -/
theorem Makes.unique {M : Machine} {K : Constants} (hH : M.hash.CollisionFree) {maker : Clvm}
    (hmaker : BindsInner M maker) {s s' : Clvm} {o o' : Opening} {ph : Bytes}
    (h : Makes M K maker s o ph) (h' : Makes M K maker s' o' ph) : o = o' := by
  obtain ⟨inner, hinner, hrun⟩ := h
  obtain ⟨inner', hinner', hrun'⟩ := h'
  obtain rfl := hmaker hrun hrun'
  obtain ⟨hr, hv⟩ := precommitInnerPuzzleHash_inj hH hinner hinner'
  cases o
  cases o'
  exact congrArg₂ Opening.mk hr hv

/-! ## What the actions reveal -/

section

variable {M : Machine} {K : Constants} {truth solution : Clvm}

/-- The opening a registration reveals. -/
def RegisterRun.opening (r : RegisterRun M K truth solution) : Opening :=
  ⟨r.s.other.refundPuzzleHashHash, r.s.precommitValue r.t.state⟩

/-- The opening an expiry reveals. -/
def ExpireRun.opening (r : ExpireRun M K truth solution) : Opening :=
  ⟨r.s.other.refundPuzzleHashHash, r.s.precommitValue r.t.state⟩

/-- The opening a refund reveals. -/
def RefundRun.opening (r : RefundRun M K truth solution) : Opening :=
  ⟨r.s.refundPuzzleHashHash, r.s.precommitValue⟩

theorem RegisterRun.makes (r : RegisterRun M K truth solution) :
    Makes M K r.s.catMaker.puzzle r.s.catMaker.solution r.opening r.precommitCoin :=
  ⟨r.inner, r.hashes_inner, r.runs_catMaker⟩

theorem ExpireRun.makes (r : ExpireRun M K truth solution) :
    Makes M K r.s.catMaker.puzzle r.s.catMaker.solution r.opening r.precommitCoin :=
  ⟨r.inner, r.hashes_inner, r.runs_catMaker⟩

theorem RefundRun.makes (r : RefundRun M K truth solution) :
    Makes M K r.s.catMaker.puzzle r.s.catMaker.solution r.opening r.precommitCoin :=
  ⟨r.inner, r.hashes_inner, r.runs_catMaker⟩

/-! ## Where the messages go -/

variable {coin : PrecommitCoin} {mode : Clvm}

/-- A registration sends one message to a precommit coin. -/
theorem RegisterRun.send_mem (r : RegisterRun M K truth solution) :
    coin.send mode ∈ r.conditions ↔
      mode = payOut ∧ coin.puzzleHash = r.precommitCoin ∧ .atom coin.amount = r.priced.totalPrice := by
  rw [← PrecommitCoin.send_eq, conditions, registerConditions]
  split <;> simp [PrecommitCoin.send, spendCoin, createHandleCoin, puzzlePuzzle, puzzlePuzzleAmount,
    payOut]

/-- An expiry sends one message to a precommit coin. -/
theorem ExpireRun.send_mem (r : ExpireRun M K truth solution) :
    coin.send mode ∈ r.conditions ↔
      mode = payOut ∧ coin.puzzleHash = r.precommitCoin ∧ .atom coin.amount = r.priced.totalPrice := by
  rw [← PrecommitCoin.send_eq, conditions, expireConditions]
  rcases expireResolvedApproval_eq_some r.approves with h | ⟨resolved, -, h⟩ <;> rw [h] <;>
    simp [PrecommitCoin.send, spendCoin, createHandleCoin, puzzlePuzzle, puzzlePuzzleAmount, payOut]

/-- What check (d) adds is no message to a precommit coin. -/
theorem send_not_mem_last {H : HashOracle} {valid : Bool} {v : Clvm} {last : List Condition}
    (h : lastConditions H K valid v = some last) : coin.send mode ∉ last := by
  cases valid with
  | false => rw [← Option.some.inj h]; exact List.not_mem_nil
  | true =>
      obtain ⟨c, a, e, d, spent, created, -, -, -, rfl⟩ := keepSlot_eq_some.1 h
      simp [PrecommitCoin.send, spendCoin, createHandleCoin, puzzlePuzzle, puzzlePuzzleAmount]

/-- A refund sends one message to a precommit coin. -/
theorem RefundRun.send_mem (r : RefundRun M K truth solution) :
    coin.send mode ∈ r.conditions ↔
      mode = refunded ∧ coin.puzzleHash = r.precommitCoin ∧
        .atom coin.amount = r.s.precommitAmount := by
  have hlast : coin.send mode ∉ r.last := send_not_mem_last r.last_eq
  have hannouncement : ∀ m, coin.send mode ≠ .createPuzzleAnnouncement m := nofun
  rw [conditions, refundConditions, List.mem_cons, List.mem_cons, PrecommitCoin.send_eq]
  simp [hlast, hannouncement, refunded]

end

end SlotMachine.Xchandles
