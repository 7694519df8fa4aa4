import SlotMachine.Listener.Reorg

/-!
# Following the blocks

At every peak the listener hands the blocks above its cursor to the indexer, up to the
new tip, and moves the cursor to the last one that it got.

* `followBlocksAfter` — one call (`xchandles/listen.rs`); `followPeak` — what a peak does
  to the indexer and the cursor.
* `followBlocksAfter_eq` — the heights that a call hands over.
* `NoneSkipped`, `GapFree` — nothing below the cursor was left out; nothing new is.
* `no_block_skipped_iff` — **in every run the one holds as long as the other does**.
-/

namespace SlotMachine.Listener

/-- `block_at_height`, during one call: the header hash and the spends, if there is a record. -/
abbrev BlockSource (Spend : Type) := ℕ → Except String (Option (Bytes × List Spend))

section

variable {S Spend : Type} (onBlock : S → ℕ → List Spend → S)

/-- The loop of `follow_blocks_after`.  A height without a record is passed over, and what
goes wrong in `on_block` is only printed. -/
def followBlocks (source : BlockSource Spend) :
    List ℕ → S → S × Except String (List (ℕ × Bytes))
  | [], s => (s, .ok [])
  | height :: heights, s =>
      match source height with
      | .error e => (s, .error e)
      | .ok none => followBlocks source heights s
      | .ok (some (headerHash, spends)) =>
          let (s', followed) := followBlocks source heights (onBlock s height spends)
          (s', followed.map ((height, headerHash) :: ·))

/-- The heights above a cursor, up to the tip. -/
def heightsAfter (afterHeight tip : ℕ) : List ℕ :=
  let start := saturatingAdd afterHeight 1
  List.range' start (tip + 1 - start)

/-- `follow_blocks_after`. -/
def followBlocksAfter (source : BlockSource Spend) (afterHeight tip : ℕ) (s : S) :
    S × Except String (List (ℕ × Bytes)) :=
  if tip < saturatingAdd afterHeight 1 then (s, .ok [])
  else followBlocks onBlock source (heightsAfter afterHeight tip) s

/-! ## Peaks -/

/-- How far a connection has come. -/
structure FollowCursor where
  lastFollowedHeight : ℕ
  recentPeaks : List (ℕ × Bytes)

/-- `retain` and `push_back`. -/
def pushPeak (recentPeaks : List (ℕ × Bytes)) (peak : ℕ × Bytes) : List (ℕ × Bytes) :=
  recentPeaks.filter (fun p => decide (p.1 < peak.1)) ++ [peak]

/-- `pop_front`, as long as there are more than 32 of them. -/
def trimPeaks (recentPeaks : List (ℕ × Bytes)) : List (ℕ × Bytes) :=
  recentPeaks.drop (recentPeaks.length - 32)

/-- The cursor after the heights that were followed. -/
def FollowCursor.advance (cursor : FollowCursor) (followed : List (ℕ × Bytes)) : FollowCursor :=
  let moved := followed.foldl
    (fun c p => { lastFollowedHeight := p.1, recentPeaks := pushPeak c.recentPeaks p }) cursor
  { moved with recentPeaks := trimPeaks moved.recentPeaks }

/-- The tip goes into the window, if it has a record and is not there. -/
def FollowCursor.noteTip (cursor : FollowCursor) (tip : ℕ) (tipHash : Option Bytes) :
    FollowCursor :=
  match tipHash with
  | none => cursor
  | some headerHash =>
      if (cursor.recentPeaks.getLast?.map Prod.fst) = some tip then cursor
      else { cursor with recentPeaks := trimPeaks (pushPeak cursor.recentPeaks (tip, headerHash)) }

/-- A peak, with what the node answers while it is processed. -/
structure Peak (Spend : Type) where
  tip : ℕ
  tip_le : tip ≤ u32Max
  tipHash : Option Bytes
  source : BlockSource Spend

/-- The part of a peak that follows blocks, without a reorganisation. -/
def followPeak (x : S × FollowCursor) (peak : Peak Spend) : S × FollowCursor :=
  match followBlocksAfter onBlock peak.source x.2.lastFollowedHeight peak.tip x.1 with
  | (s, .ok followed) => (s, (x.2.advance followed).noteTip peak.tip peak.tipHash)
  | (s, .error _) => (s, x.2.noteTip peak.tip peak.tipHash)

/-- All peaks, the first one first. -/
def followPeaks (x : S × FollowCursor) (peaks : List (Peak Spend)) : S × FollowCursor :=
  peaks.foldl (followPeak onBlock) x

/-- An indexer that writes down the heights it is handed. -/
def journaled (s : S × List ℕ) (height : ℕ) (spends : List Spend) : S × List ℕ :=
  (onBlock s.1 height spends, s.2 ++ [height])

end

/-! ## One call -/

section

variable {S Spend : Type} {onBlock : S → ℕ → List Spend → S} {source : BlockSource Spend}

/-- There is a record. -/
def hasRecord (source : BlockSource Spend) (height : ℕ) : Bool :=
  match source height with
  | .ok (some _) => true
  | _ => false

/-- The node does not answer. -/
def unanswered (source : BlockSource Spend) (height : ℕ) : Bool :=
  match source height with
  | .error _ => true
  | .ok _ => false

variable (onBlock) in
/-- **A call that gets its answers hands over the heights with a record**, and returns them. -/
theorem followBlocks_ok {heights : List ℕ}
    (h : ∀ height ∈ heights, unanswered source height = false) (s : S × List ℕ) : ∃ followed,
      (followBlocks (journaled onBlock) source heights s).2 = .ok followed ∧
      followed.map Prod.fst = heights.filter (hasRecord source) ∧
      (followBlocks (journaled onBlock) source heights s).1.2
        = s.2 ++ heights.filter (hasRecord source) := by
  induction heights generalizing s with
  | nil => exact ⟨[], rfl, rfl, (List.append_nil _).symm⟩
  | cons height heights ih =>
      have hrest := fun s => ih (fun k hk => h k (List.mem_cons_of_mem _ hk)) s
      have hheight := h height List.mem_cons_self
      unfold followBlocks
      cases hanswer : source height with
      | error e => simp [unanswered, hanswer] at hheight
      | ok answer =>
          cases answer with
          | none =>
              have hfound : hasRecord source height = false := by simp [hasRecord, hanswer]
              obtain ⟨followed, hok, hmap, hlog⟩ := hrest s
              rw [List.filter_cons_of_neg (by simp [hfound])]
              exact ⟨followed, hok, hmap, hlog⟩
          | some block =>
              have hfound : hasRecord source height = true := by simp [hasRecord, hanswer]
              obtain ⟨followed, hok, hmap, hlog⟩ := hrest (journaled onBlock s height block.2)
              rw [List.filter_cons_of_pos hfound]
              refine ⟨(height, block.1) :: followed, ?_, ?_, ?_⟩
              · dsimp only
                rw [hok]
                rfl
              · rw [List.map_cons, hmap]
              · dsimp only
                rw [hlog]
                exact List.append_assoc ..

variable (onBlock) in
/-- A call that fails returns the failure, and has handed over some heights. -/
theorem followBlocks_error {heights : List ℕ}
    (h : ∃ height ∈ heights, unanswered source height = true) (s : S × List ℕ) :
    (∃ e, (followBlocks (journaled onBlock) source heights s).2 = .error e) ∧
      s.2 ⊆ (followBlocks (journaled onBlock) source heights s).1.2 := by
  induction heights generalizing s with
  | nil =>
      obtain ⟨height, hmem, -⟩ := h
      cases hmem
  | cons height heights ih =>
      unfold followBlocks
      cases hanswer : source height with
      | error e => exact ⟨⟨e, rfl⟩, List.Subset.refl _⟩
      | ok answer =>
          have hrest : ∃ k ∈ heights, unanswered source k = true := by
            obtain ⟨k, hk, hfails⟩ := h
            obtain rfl | hk := List.mem_cons.1 hk
            · simp [unanswered, hanswer] at hfails
            · exact ⟨k, hk, hfails⟩
          cases answer with
          | none => exact ih hrest s
          | some block =>
              obtain ⟨⟨e, he⟩, hlog⟩ := ih hrest (journaled onBlock s height block.2)
              refine ⟨⟨e, ?_⟩, List.Subset.trans (List.subset_append_left _ _) hlog⟩
              dsimp only
              rw [he]
              rfl

theorem mem_heightsAfter {afterHeight tip height : ℕ} :
    height ∈ heightsAfter afterHeight tip ↔
      saturatingAdd afterHeight 1 ≤ height ∧ height ≤ tip := by
  unfold heightsAfter
  simp only [List.mem_range'_1]
  omega

/-- The early exit is that of an empty range. -/
theorem followBlocksAfter_eq (afterHeight tip : ℕ) (s : S) :
    followBlocksAfter onBlock source afterHeight tip s
      = followBlocks onBlock source (heightsAfter afterHeight tip) s := by
  unfold followBlocksAfter
  split
  · next hlt =>
      have hempty : heightsAfter afterHeight tip = [] := by
        refine List.eq_nil_iff_forall_not_mem.2 fun height hmem => ?_
        have := mem_heightsAfter.1 hmem
        omega
      rw [hempty]
      rfl
  · rfl

/-! ## One peak -/

theorem lastFollowedHeight_foldl (followed : List (ℕ × Bytes)) (cursor : FollowCursor) :
    (followed.foldl (fun c p => FollowCursor.mk p.1 (pushPeak c.recentPeaks p)) cursor
      ).lastFollowedHeight
      = (followed.map Prod.fst).getLast?.getD cursor.lastFollowedHeight := by
  induction followed generalizing cursor with
  | nil => rfl
  | cons p followed ih =>
      rw [List.foldl_cons, ih, List.map_cons, List.getLast?_cons, Option.getD_some]

@[simp] theorem lastFollowedHeight_advance (cursor : FollowCursor)
    (followed : List (ℕ × Bytes)) : (cursor.advance followed).lastFollowedHeight
      = (followed.map Prod.fst).getLast?.getD cursor.lastFollowedHeight :=
  lastFollowedHeight_foldl followed cursor

@[simp] theorem lastFollowedHeight_noteTip (cursor : FollowCursor) (tip : ℕ)
    (tipHash : Option Bytes) :
    (cursor.noteTip tip tipHash).lastFollowedHeight = cursor.lastFollowedHeight := by
  unfold FollowCursor.noteTip
  cases tipHash with
  | none => rfl
  | some headerHash =>
      dsimp only
      split <;> rfl

/-- The heights with a record that a peak is about. -/
def Peak.foundAfter (peak : Peak Spend) (afterHeight : ℕ) : List ℕ :=
  (heightsAfter afterHeight peak.tip).filter (hasRecord peak.source)

variable (onBlock) in
/-- **What a peak does**: a failure moves no cursor, and otherwise the cursor moves to the
last height that has a record. -/
theorem followPeak_cases (x : (S × List ℕ) × FollowCursor) (peak : Peak Spend) :
    ((∃ h ∈ heightsAfter x.2.lastFollowedHeight peak.tip, unanswered peak.source h = true) ∧
      (followPeak (journaled onBlock) x peak).2.lastFollowedHeight = x.2.lastFollowedHeight ∧
      x.1.2 ⊆ (followPeak (journaled onBlock) x peak).1.2) ∨
    ((∀ h ∈ heightsAfter x.2.lastFollowedHeight peak.tip, unanswered peak.source h = false) ∧
      (followPeak (journaled onBlock) x peak).2.lastFollowedHeight
        = (peak.foundAfter x.2.lastFollowedHeight).getLast?.getD x.2.lastFollowedHeight ∧
      (followPeak (journaled onBlock) x peak).1.2
        = x.1.2 ++ peak.foundAfter x.2.lastFollowedHeight) := by
  unfold followPeak
  rw [followBlocksAfter_eq]
  by_cases hfails : ∃ h ∈ heightsAfter x.2.lastFollowedHeight peak.tip,
      unanswered peak.source h = true
  · obtain ⟨⟨e, he⟩, hlog⟩ := followBlocks_error onBlock hfails x.1
    refine Or.inl ⟨hfails, ?_⟩
    generalize followBlocks (journaled onBlock) peak.source _ x.1 = call at he hlog ⊢
    obtain ⟨s, result⟩ := call
    obtain rfl : result = .error e := he
    exact ⟨lastFollowedHeight_noteTip .., hlog⟩
  · have hok : ∀ h ∈ heightsAfter x.2.lastFollowedHeight peak.tip,
        unanswered peak.source h = false := by
      intro h hh
      rw [← Bool.not_eq_true]
      exact fun hf => hfails ⟨h, hh, hf⟩
    obtain ⟨followed, he, hmap, hlog⟩ := followBlocks_ok onBlock hok x.1
    refine Or.inr ⟨hok, ?_⟩
    generalize followBlocks (journaled onBlock) peak.source _ x.1 = call at he hlog ⊢
    obtain ⟨s, result⟩ := call
    obtain rfl : result = .ok followed := he
    refine ⟨?_, hlog⟩
    dsimp only
    rw [lastFollowedHeight_noteTip, lastFollowedHeight_advance, hmap]
    rfl

end

/-! ## Runs -/

section

variable {S Spend : Type}

/-- **Nothing was left out**: all heights from where the connection began up to the cursor
have been handed over. -/
def NoneSkipped (start : ℕ) (x : (S × List ℕ) × FollowCursor) : Prop :=
  ∀ h, start < h → h ≤ x.2.lastFollowedHeight → h ∈ x.1.2

/-- **A peak leaves no gap**: unless the node fails, a height without a record that was not
handed over before has none with a record above it. -/
def GapFree (x : (S × List ℕ) × FollowCursor) (peak : Peak Spend) : Prop :=
  (∀ h ∈ heightsAfter x.2.lastFollowedHeight peak.tip, unanswered peak.source h = false) →
    ∀ h ∈ heightsAfter x.2.lastFollowedHeight peak.tip, hasRecord peak.source h = false →
      h ∉ x.1.2 → ∀ h' ∈ heightsAfter x.2.lastFollowedHeight peak.tip, h < h' →
        hasRecord peak.source h' = false

section

variable {onBlock : S → ℕ → List Spend → S} {x : (S × List ℕ) × FollowCursor}
variable {peak : Peak Spend} {start : ℕ}

theorem pairwise_foundAfter (afterHeight : ℕ) :
    (peak.foundAfter afterHeight).Pairwise (· < ·) :=
  List.Pairwise.filter _ List.pairwise_lt_range'

theorem mem_foundAfter {afterHeight h : ℕ} : h ∈ peak.foundAfter afterHeight ↔
    (saturatingAdd afterHeight 1 ≤ h ∧ h ≤ peak.tip) ∧ hasRecord peak.source h = true := by
  unfold Peak.foundAfter
  rw [List.mem_filter, mem_heightsAfter]

variable (onBlock peak) in
/-- The cursor does not go back, and stays a `u32`. -/
theorem cursor_followPeak (hcursor : x.2.lastFollowedHeight ≤ u32Max) :
    x.2.lastFollowedHeight ≤ (followPeak (journaled onBlock) x peak).2.lastFollowedHeight ∧
      (followPeak (journaled onBlock) x peak).2.lastFollowedHeight ≤ u32Max := by
  rcases followPeak_cases onBlock x peak with ⟨-, heq, -⟩ | ⟨-, heq, -⟩
  · rw [heq]
    exact ⟨le_rfl, hcursor⟩
  · rw [heq]
    cases hlast : (peak.foundAfter x.2.lastFollowedHeight).getLast? with
    | none => exact ⟨le_rfl, hcursor⟩
    | some last =>
        have hmem := (mem_foundAfter.1 (List.mem_of_getLast? hlast)).1
        have htip := peak.tip_le
        unfold saturatingAdd at hmem
        exact ⟨by rw [Option.getD_some]; omega, hmem.2.trans htip⟩

/-- **Nothing is left out by a peak exactly if it leaves no gap.** -/
theorem noneSkipped_followPeak (hcursor : x.2.lastFollowedHeight ≤ u32Max)
    (hstart : start ≤ x.2.lastFollowedHeight) (hx : NoneSkipped start x) :
    NoneSkipped start (followPeak (journaled onBlock) x peak) ↔ GapFree x peak := by
  have htip := peak.tip_le
  rcases followPeak_cases onBlock x peak with
    ⟨⟨g, hg, hfails⟩, hheight, hlog⟩ | ⟨hok, hheight, hlog⟩
  · constructor
    · intro _ hok
      rw [hok g hg] at hfails
      cases hfails
    · intro _ h hlt hle
      rw [hheight] at hle
      exact hlog (hx h hlt hle)
  · constructor
    · intro hskipped _ h hh hmissing hnew h' hh' hlt
      by_contra hfound
      rw [Bool.not_eq_false] at hfound
      rw [mem_heightsAfter] at hh hh'
      have hmem : h' ∈ peak.foundAfter x.2.lastFollowedHeight := mem_foundAfter.2 ⟨hh', hfound⟩
      have hle : h' ≤ (followPeak (journaled onBlock) x peak).2.lastFollowedHeight := by
        rw [hheight]
        cases hlast : (peak.foundAfter x.2.lastFollowedHeight).getLast? with
        | none => rw [List.getLast?_eq_none_iff.1 hlast] at hmem; cases hmem
        | some last =>
            obtain rfl | hlt := eq_or_rel_getLast (pairwise_foundAfter _) hlast hmem
            · exact le_rfl
            · exact hlt.le
      have habove : start < h := by
        unfold saturatingAdd at hh
        omega
      have hpassed := hskipped h habove (hlt.le.trans hle)
      rw [hlog, List.mem_append] at hpassed
      obtain hold | hpassed := hpassed
      · exact hnew hold
      · rw [(mem_foundAfter.1 hpassed).2] at hmissing
        cases hmissing
    · intro hgap h hlt hle
      rw [hlog, List.mem_append]
      by_cases hold : h ≤ x.2.lastFollowedHeight
      · exact Or.inl (hx h hlt hold)
      · rw [hheight] at hle
        cases hlast : (peak.foundAfter x.2.lastFollowedHeight).getLast? with
        | none =>
            rw [hlast] at hle
            exact absurd hle hold
        | some last =>
            rw [hlast, Option.getD_some] at hle
            obtain ⟨hrange, hfound⟩ := mem_foundAfter.1 (List.mem_of_getLast? hlast)
            have hh : h ∈ heightsAfter x.2.lastFollowedHeight peak.tip := by
              rw [mem_heightsAfter]
              unfold saturatingAdd
              omega
            by_contra hnot
            rw [not_or] at hnot
            have hmissing : hasRecord peak.source h = false := by
              rw [← Bool.not_eq_true]
              exact fun hf => hnot.2 (List.mem_filter.2 ⟨hh, hf⟩)
            -- the cursor stands at a height with a record, so it is another one
            have hne : h ≠ last := by
              rintro rfl
              rw [hfound] at hmissing
              cases hmissing
            have := hgap hok h hh hmissing hnot.1 last (mem_heightsAfter.2 hrange)
              (lt_of_le_of_ne hle hne)
            rw [hfound] at this
            cases this

end

/-- **No block is skipped as long as the peaks leave no gap**, in any run; and the first gap
skips one. -/
theorem no_block_skipped_iff (onBlock : S → ℕ → List Spend → S) (s : S) (cursor : FollowCursor)
    (hcursor : cursor.lastFollowedHeight ≤ u32Max) (peaks : List (Peak Spend)) :
    (∀ past, past <+: peaks → NoneSkipped cursor.lastFollowedHeight
        (followPeaks (journaled onBlock) ((s, []), cursor) past)) ↔
      ∀ past peak, past ++ [peak] <+: peaks →
        GapFree (followPeaks (journaled onBlock) ((s, []), cursor) past) peak := by
  have hstep : ∀ past peak,
      followPeaks (journaled onBlock) ((s, []), cursor) (past ++ [peak])
        = followPeak (journaled onBlock)
            (followPeaks (journaled onBlock) ((s, []), cursor) past) peak := by
    intro past peak
    exact List.foldl_append ..
  have hbounds : ∀ past : List (Peak Spend),
      cursor.lastFollowedHeight
        ≤ (followPeaks (journaled onBlock) ((s, []), cursor) past).2.lastFollowedHeight ∧
      (followPeaks (journaled onBlock) ((s, []), cursor) past).2.lastFollowedHeight ≤ u32Max := by
    intro past
    induction past using List.reverseRecOn with
    | nil => exact ⟨le_rfl, hcursor⟩
    | append_singleton past peak ih =>
        rw [hstep]
        have := cursor_followPeak onBlock peak ih.2
        exact ⟨ih.1.trans this.1, this.2⟩
  constructor
  · intro hskipped past peak hprefix
    have hpast := hskipped past ((List.prefix_append past [peak]).trans hprefix)
    have hnext := hskipped _ hprefix
    rw [hstep] at hnext
    exact (noneSkipped_followPeak (hbounds past).2 (hbounds past).1 hpast).1 hnext
  · intro hgap past
    induction past using List.reverseRecOn with
    | nil =>
        intro _ h hlt hle
        exact absurd hle (Nat.not_le.2 hlt)
    | append_singleton past peak ih =>
        intro hprefix
        have hpast := ih ((List.prefix_append past [peak]).trans hprefix)
        rw [hstep]
        exact (noneSkipped_followPeak (hbounds past).2 (hbounds past).1 hpast).2
          (hgap past peak hprefix)

end

/-! ## A missing record, as an example -/

namespace FollowingExample

/-- A node that has a record of some heights. -/
def records (found : ℕ → Bool) : BlockSource Unit := fun h =>
  .ok (if found h then some ([], []) else none)

/-- The height 11 has no record yet, and 12 has one. -/
def missing : Peak Unit where
  tip := 12
  tip_le := by decide
  tipHash := some []
  source := records (· != 11)

/-- Afterwards it has. -/
def complete : Peak Unit where
  tip := 13
  tip_le := by decide
  tipHash := some []
  source := records fun _ => true

/-- A connection that begins at the height 10. -/
def cursor : FollowCursor := ⟨10, []⟩

/-- An indexer without a state. -/
def index : Unit → ℕ → List Unit → Unit := fun _ _ _ => ()

end FollowingExample

open FollowingExample in
/-- A peak with all records. -/
theorem no_block_skipped_iff_complete :
    cursor.lastFollowedHeight ≤ u32Max ∧
      (followPeaks (journaled index) (((), []), cursor) [complete]).2.lastFollowedHeight = 13 ∧
      NoneSkipped 10 (followPeaks (journaled index) (((), []), cursor) [complete]) := by
  refine ⟨by decide, rfl, (no_block_skipped_iff index () cursor (by decide) [complete]).2
    ?_ [complete] (List.prefix_refl _)⟩
  intro past peak hprefix
  have hlength := hprefix.length_le
  obtain rfl : past = [] := by
    rw [List.length_append, List.length_singleton] at hlength
    exact List.length_eq_zero_iff.1 (Nat.le_zero.1 (Nat.le_of_add_le_add_right hlength))
  obtain rfl : peak = complete := (List.cons_prefix_cons.1 hprefix).1
  intro _ h _ hmissing
  cases hmissing

open FollowingExample in
/-- **A height is skipped**: its record was missing at one peak, and no later peak tries it
again. -/
theorem no_block_skipped_fails :
    (followPeaks (journaled index) (((), []), cursor) [missing, complete]).1.2 = [12, 13] ∧
      ¬ NoneSkipped 10 (followPeaks (journaled index) (((), []), cursor) [missing, complete]) := by
  have hpassed : (followPeaks (journaled index) (((), []), cursor) [missing, complete]).1.2
      = [12, 13] := by decide
  refine ⟨hpassed, fun hskipped => ?_⟩
  have := hskipped 11 (by decide) (by decide)
  rw [hpassed] at this
  exact absurd this (by decide)

end SlotMachine.Listener
