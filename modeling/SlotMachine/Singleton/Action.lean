import SlotMachine.Clvm.Machine
import SlotMachine.Clvm.Transcript
import SlotMachine.Singleton.MerkleUtils

/-!
# The action layer

`action.rue`: the inner puzzle of a singleton with a state, which may run any of
the actions in a Merkle tree.  A spend reveals an environment of puzzles and a
list of selectors, programs that pick an action from it.  The first recursion
checks that each of them picks an action of the tree, and reverses them; the
second one runs what they pick.

* `main` — the puzzle, with `reduceAndVerifyProofs` and `runActions` for its two
  recursions and `itemInList` for a selector that comes without a proof.
* `exists_choices` and `exists_executes` — what each recursion has done when it
  returns; `exists_selected` is what the whole spend has.
* `main_sound` — **only actions of the tree run, each with its own solution and
  the state of the one before it**.
-/

namespace SlotMachine

namespace ActionLayer

/-- What is curried into the puzzle. -/
structure Curried where
  finalizer : Clvm
  merkleRoot : Clvm
  state : Clvm

/-- The solution of a spend. -/
structure Solution where
  puzzles : Clvm
  selectorsAndProofs : Clvm
  solutions : Clvm
  finalizerSolution : Clvm

/-- `item_in_list`: the end of the list raises, as comparing a pair does. -/
def itemInList (item : Clvm) : List Clvm → Option Bool
  | [] => none
  | x :: xs => do
      let same ← x.eq item
      if same then some true else itemInList item xs

variable (M : Machine)

/-- `valid_selector`.  A selector without a proof has to be one of those before it. -/
def validSelector (merkleRoot puzzles selector proof : Clvm) (selectorsSoFar : List Clvm) :
    Option Bool :=
  if proof.truthy then do
    let program ← M.eval selector puzzles
    let puzzleHash ← M.hash.treeHash program
    let root ← M.hash.simplifyMerkleProof puzzleHash proof
    merkleRoot.eq (.atom root)
  else itemInList selector selectorsSoFar

/-- `reduce_and_verify_proofs`. -/
def reduceAndVerifyProofs (merkleRoot puzzles : Clvm) (selectorsSoFar : List Clvm) :
    Clvm → Option (List Clvm)
  | .atom [] => some selectorsSoFar
  | .atom (_ :: _) => none
  | .pair selectorAndProof rest => do
      let (selector, proof) ← selectorAndProof.uncons
      let valid ← validSelector M merkleRoot puzzles selector proof selectorsSoFar
      assertThat valid
      reduceAndVerifyProofs merkleRoot puzzles (selector :: selectorsSoFar) rest

/-- `run_actions`.  An action returns `(state_truth . conditions)`, and gets the
truth of the one before it with the next solution. -/
def runActions (puzzles : Clvm) : (currentConditions actionOutput : Clvm) → List Clvm → Clvm →
    Option Clvm
  | currentConditions, actionOutput, [], _ => do
      let (truth, newConditions) ← actionOutput.uncons
      return .pair truth (.pair newConditions currentConditions)
  | currentConditions, actionOutput, selector :: selectors, pendingSolutions => do
      let (truth, newConditions) ← actionOutput.uncons
      let (solution, solutions) ← pendingSolutions.uncons
      let puzzle ← M.eval selector puzzles
      let output ← M.eval puzzle (.pair truth solution)
      runActions puzzles (.pair newConditions currentConditions) output selectors solutions

/-- `main` of `action.rue`. -/
def main (c : Curried) (s : Solution) : Option Clvm := do
  assertThat s.selectorsAndProofs.truthy
  let selectors ← reduceAndVerifyProofs M c.merkleRoot s.puzzles [] s.selectorsAndProofs
  let output ← runActions M s.puzzles .nil (.pair (.pair .nil c.state) .nil) selectors s.solutions
  M.eval c.finalizer (.pair (.pair c.merkleRoot c.state) (.pair output s.finalizerSolution))

/-! ## Selecting -/

/-- An element of `selectors_and_proofs`. -/
structure Choice where
  selector : Clvm
  proof : Clvm

/-- The element as it is in the solution. -/
def Choice.toClvm (c : Choice) : Clvm := .pair c.selector c.proof

/-- The choice has a proof, and it leads from the hash of the selected program
to the root. -/
def Proven (merkleRoot puzzles : Clvm) (c : Choice) : Prop :=
  c.proof ≠ .nil ∧ ∃ program puzzleHash root, M.eval c.selector puzzles = some program ∧
    M.hash.treeHash program = some puzzleHash ∧
    M.hash.simplifyMerkleProof puzzleHash c.proof = some root ∧ merkleRoot = .atom root

/-- A choice among others with the same selector has been proven. -/
def ProvenAmong (merkleRoot puzzles : Clvm) (past : List Choice) (selector : Clvm) : Prop :=
  ∃ c ∈ past, c.selector = selector ∧ Proven M merkleRoot puzzles c

theorem mem_of_itemInList {item : Clvm} {xs : List Clvm} (h : itemInList item xs = some true) :
    item ∈ xs := by
  induction xs with
  | nil => exact absurd h (by simp [itemInList])
  | cons x xs ih =>
      obtain ⟨same, hsame, h1⟩ := bind_elim h
      cases same with
      | true =>
          obtain ⟨b, rfl, rfl⟩ := Clvm.eq_eq_some_true.1 hsame
          exact List.mem_cons_self
      | false => exact List.mem_cons_of_mem _ (ih h1)

variable {M}

/-- A valid selector is proven, or repeats one that is already there. -/
theorem proven_or_mem {merkleRoot puzzles selector proof : Clvm} {selectorsSoFar : List Clvm}
    (h : validSelector M merkleRoot puzzles selector proof selectorsSoFar = some true) :
    Proven M merkleRoot puzzles ⟨selector, proof⟩ ∨ proof = .nil ∧ selector ∈ selectorsSoFar := by
  unfold validSelector at h
  by_cases hproof : proof.truthy = true
  · rw [if_pos hproof] at h
    obtain ⟨program, hprogram, h1⟩ := bind_elim h
    obtain ⟨puzzleHash, hhash, h2⟩ := bind_elim h1
    obtain ⟨root, hroot, h3⟩ := bind_elim h2
    obtain ⟨b, rfl, hb⟩ := Clvm.eq_eq_some_true.1 h3
    obtain rfl := Clvm.atom.inj hb
    refine Or.inl ⟨?_, program, puzzleHash, root, hprogram, hhash, hroot, rfl⟩
    simpa [Clvm.truthy] using hproof
  · rw [if_neg hproof] at h
    exact Or.inr ⟨Clvm.eq_nil_of_not_truthy (by simpa using hproof), mem_of_itemInList h⟩

theorem ProvenAmong.mono {merkleRoot puzzles selector : Clvm} {past past' : List Choice}
    (h : ProvenAmong M merkleRoot puzzles past selector) (hsub : past ⊆ past') :
    ProvenAmong M merkleRoot puzzles past' selector := by
  obtain ⟨c, hc, hselector, hproven⟩ := h
  exact ⟨c, hsub hc, hselector, hproven⟩

/-- **What the first recursion has checked.**  The solution holds a proper list
of choices; the selectors come back in reverse order; and every choice is proven,
or has no proof and repeats the selector of an earlier one that is. -/
theorem exists_choices {merkleRoot puzzles : Clvm} {past : List Choice} {sp : Clvm}
    {selectors : List Clvm}
    (hpast : ∀ c ∈ past, ProvenAmong M merkleRoot puzzles past c.selector)
    (h : reduceAndVerifyProofs M merkleRoot puzzles (past.map Choice.selector).reverse sp
      = some selectors) :
    ∃ choices : List Choice, sp = .ofList (choices.map Choice.toClvm) ∧
      selectors = ((past ++ choices).map Choice.selector).reverse ∧
      ∀ before c after, choices = before ++ c :: after → Proven M merkleRoot puzzles c ∨
        c.proof = .nil ∧ ProvenAmong M merkleRoot puzzles (past ++ before) c.selector := by
  induction sp generalizing past with
  | atom b =>
      cases b with
      | nil =>
          refine ⟨[], rfl, ?_, ?_⟩
          · rw [List.append_nil]
            exact (Option.some.inj h).symm
          · intro before c after hsplit
            exact absurd hsplit (by simp)
      | cons _ _ => exact absurd h (by simp [reduceAndVerifyProofs])
  | pair selectorAndProof rest _ ih =>
      unfold reduceAndVerifyProofs at h
      obtain ⟨⟨selector, proof⟩, hitem, h1⟩ := bind_elim h
      obtain ⟨valid, hvalid, h2⟩ := bind_elim h1
      obtain ⟨_, hassert, hrest⟩ := bind_elim h2
      rw [assertThat_eq_some.1 hassert] at hvalid
      obtain rfl := Clvm.uncons_eq_some.1 hitem
      have hhere : Proven M merkleRoot puzzles ⟨selector, proof⟩ ∨
          proof = .nil ∧ ProvenAmong M merkleRoot puzzles past selector := by
        rcases proven_or_mem hvalid with hproven | ⟨hnil, hmem⟩
        · exact Or.inl hproven
        · rw [List.mem_reverse, List.mem_map] at hmem
          obtain ⟨c, hc, hselector⟩ := hmem
          exact Or.inr ⟨hnil, hselector ▸ hpast c hc⟩
      have hnext : ∀ c ∈ past ++ [⟨selector, proof⟩],
          ProvenAmong M merkleRoot puzzles (past ++ [⟨selector, proof⟩]) c.selector := by
        intro c hc
        rcases List.mem_append.1 hc with hc | hc
        · exact (hpast c hc).mono (List.subset_append_left _ _)
        · obtain rfl := List.mem_singleton.1 hc
          rcases hhere with hproven | ⟨-, hamong⟩
          · exact ⟨_, hc |> List.mem_append_right past, rfl, hproven⟩
          · exact hamong.mono (List.subset_append_left _ _)
      obtain ⟨choices, hlist, hselectors, hchecked⟩ := ih hnext (by simpa using hrest)
      refine ⟨⟨selector, proof⟩ :: choices, ?_, ?_, ?_⟩
      · rw [hlist]
        rfl
      · simpa using hselectors
      · intro before c after hsplit
        cases before with
        | nil =>
            obtain ⟨rfl, -⟩ := List.cons.inj hsplit
            simpa using hhere
        | cons c' before =>
            obtain ⟨rfl, htail⟩ := List.cons.inj hsplit
            simpa using hchecked before c after htail

/-! ## Running -/

variable (M)

/-- The programs run in order on the solutions in order, the first of them in
`truth` and each other one in what the one before it returned. -/
inductive Executes : (truth : Clvm) → (programs : List Clvm) → (solutions : Clvm) →
    (lists : List Clvm) → (last : Clvm) → Prop where
  | done (truth solutions : Clvm) : Executes truth [] solutions [] truth
  | step {truth truth' program solution solutions conditions last : Clvm}
      {programs lists : List Clvm} :
      M.eval program (.pair truth solution) = some (.pair truth' conditions) →
      Executes truth' programs solutions lists last →
      Executes truth (program :: programs) (.pair solution solutions) (conditions :: lists) last

variable {M}

/-- **What the second recursion has done.**  The lists of conditions are in front
of those there already, the last one first. -/
theorem exists_executes {puzzles truth newConditions solutions out : Clvm}
    {current selectors : List Clvm}
    (h : runActions M puzzles (.ofList current) (.pair truth newConditions) selectors solutions
      = some out) :
    ∃ programs lists last,
      List.Forall₂ (fun s program => M.eval s puzzles = some program) selectors programs ∧
      Executes M truth programs solutions lists last ∧
      out = .pair last (.ofList (lists.reverse ++ newConditions :: current)) := by
  induction selectors generalizing truth newConditions solutions current with
  | nil =>
      refine ⟨[], [], truth, List.Forall₂.nil, Executes.done truth solutions, ?_⟩
      exact (Option.some.inj h).symm
  | cons selector selectors ih =>
      unfold runActions at h
      obtain ⟨_, hcurrent, h1⟩ := bind_elim h
      cases hcurrent
      obtain ⟨⟨solution, solutions'⟩, hsolution, h2⟩ := bind_elim h1
      obtain ⟨program, hprogram, h3⟩ := bind_elim h2
      obtain ⟨output, houtput, hrest⟩ := bind_elim h3
      obtain rfl := Clvm.uncons_eq_some.1 hsolution
      -- the next call, or the end, takes the output apart
      have hpair : ∃ truth' conditions, output = .pair truth' conditions := by
        cases output with
        | atom b => cases selectors <;> exact absurd hrest (by simp [runActions, Clvm.uncons])
        | pair truth' conditions => exact ⟨truth', conditions, rfl⟩
      obtain ⟨truth', conditions, rfl⟩ := hpair
      obtain ⟨programs, lists, last, hselected, hexecutes, hout⟩ :=
        @ih truth' conditions solutions' (newConditions :: current) hrest
      refine ⟨program :: programs, conditions :: lists, last, List.Forall₂.cons hprogram hselected,
        Executes.step houtput hexecutes, ?_⟩
      rw [hout, List.reverse_cons, List.append_assoc]
      rfl

/-! ## The whole spend -/

/-- What a spend of the action layer has done: it made `choices`, ran `programs`
in this order, got `lists` of conditions from them and ended in the truth `last`. -/
structure Selected (M : Machine) (c : Curried) (s : Solution) (out : Clvm) (choices : List Choice)
    (programs lists : List Clvm) (last : Clvm) : Prop where
  /-- The solution is a proper list of choices, and not the empty one. -/
  listed : s.selectorsAndProofs = .ofList (choices.map Choice.toClvm)
  nonempty : choices ≠ []
  proven : ∀ choice ∈ choices, ProvenAmong M c.merkleRoot s.puzzles choices choice.selector
  /-- A choice without a proof repeats a selector that was proven before. -/
  repeats : ∀ before choice after, choices = before ++ choice :: after → choice.proof = .nil →
    ProvenAmong M c.merkleRoot s.puzzles before choice.selector
  /-- The programs are the selected ones, the last choice first. -/
  selected : List.Forall₂ (fun choice program => M.eval choice.selector s.puzzles = some program)
    choices.reverse programs
  /-- They run one after the other, from no ephemeral state and the state of the singleton. -/
  executes : Executes M (.pair .nil c.state) programs s.solutions lists last
  /-- The finalizer gets the last truth and all lists of conditions. -/
  finalized : M.eval c.finalizer (.pair (.pair c.merkleRoot c.state)
    (.pair (.pair last (.ofList (lists.reverse ++ [.nil]))) s.finalizerSolution)) = some out

/-- What it has done when the root is that of a tree: all programs are from the tree. -/
structure RunsSelected (M : Machine) (tree : Merkle.Tree Bytes) (c : Curried) (s : Solution)
    (out : Clvm) (choices : List Choice) (programs lists : List Clvm) (last : Clvm) : Prop
    extends Selected M c s out choices programs lists last where
  committed : ∀ program ∈ programs, ∃ ph ∈ tree.leaves, M.hash.treeHash program = some ph

/-- A spend that does not raise has selected and run its programs. -/
theorem exists_selected {c : Curried} {s : Solution} {out : Clvm} (h : main M c s = some out) :
    ∃ choices programs lists last, Selected M c s out choices programs lists last := by
  unfold main at h
  obtain ⟨_, hnonempty, h1⟩ := bind_elim h
  obtain ⟨selectors, hselectors, h2⟩ := bind_elim h1
  obtain ⟨output, houtput, hfinal⟩ := bind_elim h2
  obtain ⟨choices, hlist, hreversed, hchecked⟩ :=
    @exists_choices M c.merkleRoot s.puzzles [] _ _ (fun _ h => absurd h List.not_mem_nil)
      hselectors
  obtain ⟨programs, lists, last, hselected, hexecutes, hout⟩ :=
    @exists_executes M s.puzzles _ _ _ _ [] _ houtput
  rw [List.nil_append, ← List.map_reverse] at hreversed
  rw [hreversed, List.forall₂_map_left_iff] at hselected
  rw [hout] at hfinal
  refine ⟨choices, programs, lists, last, hlist, ?_, ?_, ?_, hselected, hexecutes, hfinal⟩
  · rintro rfl
    rw [hlist] at hnonempty
    simp [Clvm.truthy, Clvm.ofList] at hnonempty
  · intro choice hchoice
    obtain ⟨before, after, hsplit⟩ := List.append_of_mem hchoice
    rcases hchecked before choice after hsplit with hproven | ⟨-, hamong⟩
    · exact ⟨choice, hchoice, rfl, hproven⟩
    · rw [List.nil_append] at hamong
      exact hamong.mono (hsplit ▸ List.subset_append_left _ _)
  · intro before choice after hsplit hnil
    rcases hchecked before choice after hsplit with hproven | ⟨-, hamong⟩
    · exact absurd hnil hproven.1
    · exact hamong

/-- A proven choice selects a program of the tree. -/
theorem Proven.mem_leaves (hH : M.hash.CollisionFree) {tree : Merkle.Tree Bytes} {root : Bytes}
    (hroot : tree.root M.hash.merkle = some root) {puzzles program : Clvm} {c : Choice}
    (h : Proven M (.atom root) puzzles c) (hprogram : M.eval c.selector puzzles = some program) :
    ∃ ph ∈ tree.leaves, M.hash.treeHash program = some ph := by
  obtain ⟨-, program', puzzleHash, root', hprogram', hhash, hproof, hsame⟩ := h
  obtain rfl : program = program' := Option.some.inj (hprogram.symm.trans hprogram')
  obtain rfl : root = root' := Clvm.atom.inj hsame
  exact ⟨puzzleHash, HashOracle.mem_leaves_of_simplifyMerkleProof hH hroot hproof, hhash⟩

/-- Choices whose selectors are proven select programs of the tree only. -/
theorem mem_leaves_of_selected (hH : M.hash.CollisionFree) {tree : Merkle.Tree Bytes}
    {root : Bytes} (hroot : tree.root M.hash.merkle = some root) {puzzles : Clvm}
    {all choices : List Choice} {programs : List Clvm}
    (hproven : ∀ choice ∈ choices, ProvenAmong M (.atom root) puzzles all choice.selector)
    (hselected : List.Forall₂ (fun choice program => M.eval choice.selector puzzles = some program)
      choices programs) :
    ∀ program ∈ programs, ∃ ph ∈ tree.leaves, M.hash.treeHash program = some ph := by
  induction hselected with
  | nil => exact fun program h => absurd h List.not_mem_nil
  | @cons choice program choices programs heval _ ih =>
      intro program' hprogram
      rcases List.mem_cons.1 hprogram with rfl | hprogram
      · obtain ⟨choice', -, hselector, hchoice'⟩ := hproven choice List.mem_cons_self
        exact hchoice'.mem_leaves hH hroot (hselector ▸ heval)
      · exact ih (fun choice h => hproven choice (List.mem_cons_of_mem _ h)) program' hprogram

/-- All programs of a spend are from the tree. -/
theorem Selected.committed (hH : M.hash.CollisionFree) {tree : Merkle.Tree Bytes} {root : Bytes}
    (hroot : tree.root M.hash.merkle = some root) {c : Curried} (hc : c.merkleRoot = .atom root)
    {s : Solution} {out last : Clvm} {choices : List Choice} {programs lists : List Clvm}
    (h : Selected M c s out choices programs lists last) :
    ∀ program ∈ programs, ∃ ph ∈ tree.leaves, M.hash.treeHash program = some ph := by
  have hproven := h.proven
  rw [hc] at hproven
  exact mem_leaves_of_selected hH hroot
    (fun choice hchoice => hproven choice (List.mem_reverse.1 hchoice)) h.selected

/-- **Only actions of the tree run, each with its own solution and the state of
the one before it.** -/
theorem main_sound (M : Machine) (hH : M.hash.CollisionFree) {tree : Merkle.Tree Bytes}
    {root : Bytes} (hroot : tree.root M.hash.merkle = some root) {c : Curried}
    (hc : c.merkleRoot = .atom root) {s : Solution} {out : Clvm} (h : main M c s = some out) :
    ∃ choices programs lists last, RunsSelected M tree c s out choices programs lists last := by
  obtain ⟨choices, programs, lists, last, hselected⟩ := exists_selected h
  exact ⟨choices, programs, lists, last, hselected, hselected.committed hH hroot hc⟩

/-! ### A spend of two actions -/

section

/-- The action `1` returns its whole environment, its truth and its solution. -/
def echoAction : Clvm := .atom [1]

/-- The action `2` returns its truth: no ephemeral state, and the state as conditions. -/
def revealAction : Clvm := .atom [2]

/-- Both are in the environment, so that the selectors are the paths `2` and `3`. -/
def pairOfActions : Clvm := .pair echoAction revealAction

variable {H : HashOracle} {other : Bytes → List Clvm → Option Clvm} {fuel : ℕ}

theorem eval_path_two (a b : Clvm) :
    (Machine.clvm H other (fuel + 1)).eval (.atom [2]) (.pair a b) = some a := rfl

theorem eval_path_three (a b : Clvm) :
    (Machine.clvm H other (fuel + 1)).eval (.atom [3]) (.pair a b) = some b := rfl

theorem eval_path_one (env : Clvm) :
    (Machine.clvm H other (fuel + 1)).eval (.atom [1]) env = some env := rfl

/-- A spend that selects the first action, the second one and the first again,
the last time without a proof. -/
theorem main_pairOfActions {echoHash revealHash left right root : Bytes}
    (hecho : H.treeHash echoAction = some echoHash)
    (hreveal : H.treeHash revealAction = some revealHash)
    (hleft : H.treeHashAtom (.atom echoHash) = some left)
    (hright : H.treeHashAtom (.atom revealHash) = some right)
    (hroot : H.treeHashPair (.atom left) (.atom right) = some root) (state x y z : Clvm) :
    main (Machine.clvm H other (fuel + 1)) ⟨.atom [1], .atom root, state⟩
      ⟨pairOfActions, .ofList [.pair (.atom [2]) (.ofList [.nil, .atom right]),
        .pair (.atom [3]) (.ofList [.atom [1], .atom left]), .pair (.atom [2]) .nil],
        .ofList [x, y, z], .nil⟩
      = some (.pair (.pair (.atom root) state)
          (.pair (.pair .nil (.ofList [z, state, x, .nil])) .nil)) := by
  have hone : validSelector (Machine.clvm H other (fuel + 1)) (.atom root) pairOfActions (.atom [2])
      (.ofList [.nil, .atom right]) [] = some true := by
    refine bind_intro (eval_path_two _ _) (bind_intro hecho (bind_intro ?_ (Clvm.eq_atom root)))
    exact bind_intro hleft (bind_intro rfl (bind_intro rfl (bind_intro hroot rfl)))
  have htwo : validSelector (Machine.clvm H other (fuel + 1)) (.atom root) pairOfActions (.atom [3])
      (.ofList [.atom [1], .atom left]) [.atom [2]] = some true := by
    refine bind_intro (eval_path_three _ _) (bind_intro hreveal (bind_intro ?_ (Clvm.eq_atom root)))
    exact bind_intro hright (bind_intro rfl (bind_intro rfl (bind_intro hroot rfl)))
  have hselectors : reduceAndVerifyProofs (Machine.clvm H other (fuel + 1)) (.atom root)
      pairOfActions [] (.ofList [.pair (.atom [2]) (.ofList [.nil, .atom right]),
        .pair (.atom [3]) (.ofList [.atom [1], .atom left]), .pair (.atom [2]) .nil])
      = some [.atom [2], .atom [3], .atom [2]] :=
    bind_intro rfl (bind_intro hone (bind_intro rfl
      (bind_intro rfl (bind_intro htwo (bind_intro rfl rfl)))))
  have hrun : runActions (Machine.clvm H other (fuel + 1)) pairOfActions .nil
      (.pair (.pair .nil state) .nil) [.atom [2], .atom [3], .atom [2]] (.ofList [x, y, z])
      = some (.pair .nil (.ofList [z, state, x, .nil])) := rfl
  exact bind_intro rfl (bind_intro hselectors (bind_intro hrun (eval_path_one _)))

/-- The hash of the first action, of the second one, and the tree of both. -/
def echoHash : Bytes := (Skeleton.ofClvm echoAction).hash

def revealHash : Bytes := (Skeleton.ofClvm revealAction).hash

def treeOfActions : Merkle.Tree Bytes := .node (.leaf echoHash) (.leaf revealHash)

/-- What the tree of both hashes: its nodes are hashed as the nodes of a tree of atoms. -/
def hashedParts : List Skeleton :=
  [.ofClvm echoAction, .ofClvm revealAction, .ofClvm (.pair (.atom echoHash) (.atom revealHash))]

theorem main_sound_pairOfActions :
    ∃ root left right choices programs lists last,
      RunsSelected (Machine.clvm (.ofSkeletons hashedParts) (fun _ _ => none) 1) treeOfActions
        ⟨.atom [1], .atom root, .atom [7]⟩
        ⟨pairOfActions, .ofList [.pair (.atom [2]) (.ofList [.nil, .atom right]),
          .pair (.atom [3]) (.ofList [.atom [1], .atom left]), .pair (.atom [2]) .nil],
          .ofList [.nil, .nil, .nil], .nil⟩
        (.pair (.pair (.atom root) (.atom [7]))
          (.pair (.pair .nil (.ofList [.nil, .atom [7], .nil, .nil])) .nil))
        choices programs lists last := by
  have hfree : (HashOracle.ofSkeletons hashedParts).CollisionFree :=
    HashOracle.ofSkeletons_collisionFree (by decide +kernel)
  have hecho : (HashOracle.ofSkeletons hashedParts).treeHash echoAction = some echoHash :=
    HashOracle.treeHash_ofSkeletons (by simp [hashedParts])
  have hreveal : (HashOracle.ofSkeletons hashedParts).treeHash revealAction = some revealHash :=
    HashOracle.treeHash_ofSkeletons (by simp [hashedParts])
  obtain ⟨root, hboth⟩ : ∃ root, (HashOracle.ofSkeletons hashedParts).treeHash
      (.pair (.atom echoHash) (.atom revealHash)) = some root :=
    ⟨_, HashOracle.treeHash_ofSkeletons (by simp [hashedParts])⟩
  obtain ⟨left, right, hleft, hright, hroot⟩ := HashOracle.treeHash_pair_eq_some.1 hboth
  have htree : treeOfActions.root (HashOracle.ofSkeletons hashedParts).merkle = some root :=
    Merkle.Tree.root_node_eq_some.2 ⟨left, right, hleft, hright, hroot⟩
  have hmain := @main_pairOfActions _ (fun _ _ => none) 0 _ _ _ _ _ hecho hreveal hleft hright
    hroot (.atom [7]) .nil .nil .nil
  exact ⟨root, left, right, main_sound (.clvm _ _ _) hfree htree rfl hmain⟩

end

end ActionLayer

end SlotMachine
