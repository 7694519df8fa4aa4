import SlotMachine.Chain.Condition

/-!
# Conditions as CLVM values

A puzzle returns its conditions as a list of lists, each with an opcode in
front.  The singleton top layer looks among them for the one coin that carries
the singleton on: a `CREATE_COIN` of odd amount, or of the negative amount that
melts it.

* `Condition.toClvm` — a condition as the puzzles write it.
* `singular` — the coins the singleton top layer takes for its own.
* `Condition.Payless` — the condition creates no coin with an amount in it;
  `Condition.singular_eq_false` says that none of these is taken for one.
-/

namespace SlotMachine

/-- A condition as the puzzles write it.  Memos are left out when there are none. -/
def Condition.toClvm : Condition → Clvm
  | createCoin puzzleHash amount memos =>
      .ofList (.atom [51] :: puzzleHash :: amount :: if memos.isEmpty then [] else [.ofList memos])
  | createPuzzleAnnouncement message => .ofList [.atom [62], message]
  | assertPuzzleAnnouncement id => .ofList [.atom [63], id]
  | assertConcurrentSpend coinId => .ofList [.atom [64], coinId]
  | sendMessage mode message receiver =>
      .ofList (.atom [66] :: .ofInt mode :: message :: receiver)
  | receiveMessage mode message sender => .ofList (.atom [67] :: .ofInt mode :: message :: sender)
  | assertMyCoinId coinId => .ofList [.atom [70], coinId]
  | assertMyParentId parentId => .ofList [.atom [71], parentId]
  | assertMyAmount amount => .ofList [.atom [73], amount]
  | assertSecondsAbsolute seconds => .ofList [.atom [81], seconds]
  | assertBeforeSecondsAbsolute seconds => .ofList [.atom [85], seconds]
  | assertHeightRelative height => .ofList [.atom [82], height]
  | assertHeightAbsolute height => .ofList [.atom [83], height]
  | assertBeforeHeightAbsolute height => .ofList [.atom [87], height]

/-- The conditions of a puzzle as it returns them. -/
def encode (cs : List Condition) : Clvm := .ofList (cs.map Condition.toClvm)

/-- Puzzle hash and amount of a `CREATE_COIN`. -/
def createdCoin? : Clvm → Option (Clvm × Clvm)
  | .pair (.atom [51]) (.pair puzzleHash (.pair amount _)) => some (puzzleHash, amount)
  | _ => none

/-- The amount is odd or negative. -/
def singularAmount : Clvm → Bool
  | .atom b => decide (intFromBytes b % 2 = 1 ∨ intFromBytes b < 0)
  | .pair _ _ => false

/-- The condition creates a coin of odd or negative amount. -/
def singular (c : Clvm) : Bool := (createdCoin? c).any fun coin => singularAmount coin.2

/-- A coin that the condition creates is of amount zero. -/
def Condition.Payless : Condition → Prop
  | createCoin _ amount _ => amount = .nil
  | _ => True

theorem Condition.singular_eq_false {c : Condition} (h : c.Payless) : singular c.toClvm = false := by
  cases c with
  | createCoin puzzleHash amount memos =>
      obtain rfl : amount = .nil := h
      rfl
  | _ => rfl

/-- Among encoded conditions that pay nothing, no coin is singular. -/
theorem filter_singular_of_payless {cs : List Condition} (h : ∀ c ∈ cs, c.Payless) :
    (cs.map Condition.toClvm).filter singular = [] := by
  rw [List.filter_eq_nil_iff]
  intro v hv
  obtain ⟨c, hc, rfl⟩ := List.mem_map.1 hv
  rw [Condition.singular_eq_false (h c hc)]
  exact Bool.false_ne_true

/-! ## Lists of values -/

theorem Clvm.ofList_injective : Function.Injective Clvm.ofList := by
  intro xs
  induction xs with
  | nil =>
      intro ys h
      cases ys with
      | nil => rfl
      | cons y ys => cases h
  | cons x xs ih =>
      intro ys h
      cases ys with
      | nil => cases h
      | cons y ys =>
          obtain ⟨rfl, htail⟩ := Clvm.pair.inj h
          rw [ih htail]

end SlotMachine
