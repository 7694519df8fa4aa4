import SlotMachine.Cli.Outcome
import SlotMachine.Ledger.Loop
import SlotMachine.Listener.Directory

/-!
# The derivations of a wallet

The public key of a custody address is looked for in the wallet, which is asked for its
derivations in windows of 100.  The loop stops at a window that has the address, or where the
wallet has fewer derivations than a window, wherever the window is.

* `findPublicKeyForAddress` — the loop (`reward_distributor/helpers.rs`).
* `answer` — what a search of the whole list would return.
* `found_iff` — **when the loop returns this**: the list has the address or is short.
-/

namespace SlotMachine.Cli

open Loop Listener

/-! ## The wallet -/

/-- `DerivationRecord`. -/
structure DerivationRecord where
  publicKey : String
  address : String
  deriving DecidableEq

/-- `GetDerivationsResponse`. -/
structure GetDerivationsResponse where
  derivations : List DerivationRecord
  total : ℕ

/-- The derivations of a wallet, whose number is a `u32`. -/
structure Wallet where
  records : List DerivationRecord
  length_lt : records.length < 2 ^ 32

/-- `get_derivations`: a slice, and the total number. -/
def Wallet.getDerivations (wallet : Wallet) (offset limit : ℕ) : GetDerivationsResponse :=
  ⟨(wallet.records.drop offset).take limit, wallet.records.length⟩

/-! ## The search -/

/-- `hex.replace("0x", "")`. -/
def dropHexMarks : List Char → List Char
  | '0' :: 'x' :: rest => dropHexMarks rest
  | c :: rest => c :: dropHexMarks rest
  | [] => []

section

variable {PublicKey : Type} (fromBytes : Bytes → Option PublicKey)

/-- `hex_string_to_pubkey`. -/
def hexStringToPubkey (hex : String) : Except CliError PublicKey :=
  match hexDecode (dropHexMarks hex.toList) with
  | none => .error .parseHex
  | some bytes =>
      if bytes.length ≠ 48 then .error .parseHex
      else match fromBytes bytes with
        | none => .error .invalidPublicKey
        | some key => .ok key

/-- `window_size`. -/
def windowSize : ℕ := 100

/-- The error for an address that was not found. -/
def addressNotFound : CliError :=
  .custom "Could not find public key for custody address in wallet derivations"

/-- A round of `find_public_key_for_address`, at an offset. -/
def findRound (profile : Profile) (wallet : Wallet) (address : String) (offset : ℕ) :
    ℕ ⊕ Outcome PublicKey :=
  let response := wallet.getDerivations offset windowSize
  match response.derivations.find? fun d => decide (d.address = address) with
  | some derivation => .inr (.returned (hexStringToPubkey fromBytes derivation.publicKey))
  | none =>
      if response.total < windowSize then .inr (.returned (.error addressNotFound))
      else match profile.add 32 offset windowSize with
        | none => .inr .panicked
        | some offset => .inl offset

/-- `find_public_key_for_address` ends so, if it ends. -/
def FindPublicKeyForAddress (profile : Profile) (wallet : Wallet) (address : String)
    (outcome : Outcome PublicKey) : Prop :=
  Returns (findRound fromBytes profile wallet address) 0 outcome

/-- **The answer**: the key of the derivation with the address, or the error that there is
none. -/
def answer (wallet : Wallet) (address : String) : Except CliError PublicKey :=
  match wallet.records.find? fun d => decide (d.address = address) with
  | some derivation => hexStringToPubkey fromBytes derivation.publicKey
  | none => .error addressNotFound

/-! ## The windows -/

variable {fromBytes} {profile : Profile} {wallet : Wallet} {address : String} {offset : ℕ}

/-- An address that is not in the first part of a list is found in the rest. -/
theorem find?_drop {α : Type*} {p : α → Bool} {l : List α} {n : ℕ} (h : (l.take n).find? p = none) :
    (l.drop n).find? p = l.find? p := by
  conv_rhs => rw [← List.take_append_drop n l, List.find?_append, h, Option.none_or]

/-- No window before the offset has the address. -/
def NotBefore (wallet : Wallet) (address : String) (offset : ℕ) : Prop :=
  (wallet.records.take offset).find? (fun d => decide (d.address = address)) = none

/-- The window is looked through, and then the loop goes on behind it. -/
theorem NotBefore.next (h : NotBefore wallet address offset)
    (hwindow : (wallet.getDerivations offset windowSize).derivations.find?
      (fun d => decide (d.address = address)) = none) :
    NotBefore wallet address (offset + windowSize) := by
  unfold NotBefore at h ⊢
  rw [List.take_add, List.find?_append, h, Option.none_or]
  exact hwindow

/-- A window that has the address has the answer. -/
theorem NotBefore.answer_eq (h : NotBefore wallet address offset) {d : DerivationRecord}
    (hwindow : (wallet.getDerivations offset windowSize).derivations.find?
      (fun d => decide (d.address = address)) = some d) :
    answer fromBytes wallet address = hexStringToPubkey fromBytes d.publicKey := by
  have hrest : (wallet.records.drop offset).find? (fun d => decide (d.address = address))
      = some d := by
    rw [← List.take_append_drop windowSize (wallet.records.drop offset), List.find?_append]
    have htake : ((wallet.records.drop offset).take windowSize).find?
        (fun d => decide (d.address = address)) = some d := hwindow
    rw [htake, Option.some_or]
  unfold answer
  rw [← find?_drop h, hrest]

/-- Where an address is found lies behind every window without it. -/
theorem NotBefore.lt_length (h : NotBefore wallet address offset)
    (hfound : ∃ d ∈ wallet.records, d.address = address) : offset < wallet.records.length := by
  by_contra hle
  obtain ⟨d, hd, haddress⟩ := hfound
  unfold NotBefore at h
  rw [List.take_of_length_le (not_lt.1 hle)] at h
  exact absurd haddress (by simpa using List.find?_eq_none.1 h d hd)

variable (fromBytes profile) in
/-- **A round behind windows without the address** goes on behind its own, or answers. -/
theorem findRound_of_found (hfound : ∃ d ∈ wallet.records, d.address = address)
    (h : NotBefore wallet address offset) :
    (NotBefore wallet address (offset + windowSize) ∧
      findRound fromBytes profile wallet address offset = .inl (offset + windowSize)) ∨
    findRound fromBytes profile wallet address offset
      = .inr (.returned (answer fromBytes wallet address)) := by
  unfold findRound
  cases hwindow : (wallet.getDerivations offset windowSize).derivations.find?
      (fun d => decide (d.address = address)) with
  | some d =>
      right
      simp only [hwindow, h.answer_eq hwindow]
  | none =>
      left
      have hnext := h.next hwindow
      have hlt := hnext.lt_length hfound
      have hbound := wallet.length_lt
      have htotal : ¬ (wallet.getDerivations offset windowSize).total < windowSize := by
        show ¬ wallet.records.length < windowSize
        omega
      refine ⟨hnext, ?_⟩
      simp only [hwindow, if_neg htotal, Profile.add_of_lt (hlt.trans hbound)]

/-- The search of a list that has the address returns the answer. -/
theorem found_of_mem (hfound : ∃ d ∈ wallet.records, d.address = address) :
    FindPublicKeyForAddress fromBytes profile wallet address
      (.returned (answer fromBytes wallet address)) := by
  have hstep : ∀ offset offset', NotBefore wallet address offset →
      findRound fromBytes profile wallet address offset = .inl offset' →
      NotBefore wallet address offset' ∧
        wallet.records.length - offset' < wallet.records.length - offset := by
    intro offset offset' h hround
    rcases findRound_of_found fromBytes profile hfound h with
      ⟨hnext, hgoes⟩ | hanswers
    · obtain rfl := Sum.inl.inj (hgoes.symm.trans hround)
      have hlt := h.lt_length hfound
      have hpos : 0 < windowSize := by decide
      exact ⟨hnext, by omega⟩
    · rw [hanswers] at hround
      cases hround
  have hstart : NotBefore wallet address 0 := rfl
  obtain ⟨outcome, houtcome⟩ := returns_of_measure _ hstep hstart
  obtain ⟨offset, hoffset, hround⟩ := houtcome.last (fun s s' hs hbody => (hstep s s' hs hbody).1)
    hstart
  rcases findRound_of_found fromBytes profile hfound hoffset with
    ⟨-, hgoes⟩ | hanswers
  · rw [hgoes] at hround
    cases hround
  · obtain rfl := Sum.inr.inj (hanswers.symm.trans hround)
    exact houtcome

/-- So does the search of a short list. -/
theorem found_of_short (h : wallet.records.length < windowSize) :
    FindPublicKeyForAddress fromBytes profile wallet address
      (.returned (answer fromBytes wallet address)) := by
  have hwindow : (wallet.getDerivations 0 windowSize).derivations = wallet.records :=
    List.take_of_length_le h.le
  refine (returns_inr ?_).2 rfl
  unfold findRound answer
  simp only [hwindow]
  cases wallet.records.find? (fun d => decide (d.address = address)) with
  | some d => rfl
  | none => exact if_pos h

variable (fromBytes) in
/-- A list that is not short, and does not have the address, has no last window. -/
theorem findRound_of_absent (habsent : ∀ d ∈ wallet.records, d.address ≠ address)
    (h : ¬ wallet.records.length < windowSize) (offset : ℕ) :
    findRound fromBytes profile wallet address offset
      = match profile.add 32 offset windowSize with
        | none => .inr .panicked
        | some offset => .inl offset := by
  have hwindow : (wallet.getDerivations offset windowSize).derivations.find?
      (fun d => decide (d.address = address)) = none := by
    rw [List.find?_eq_none]
    intro d hd
    have hmem := List.mem_of_mem_drop (List.mem_of_mem_take hd)
    simpa using habsent d hmem
  have htotal : ¬ (wallet.getDerivations offset windowSize).total < windowSize := h
  unfold findRound
  simp only [hwindow, if_neg htotal]

/-- The search of such a list returns nothing. -/
theorem not_found_of_absent (habsent : ∀ d ∈ wallet.records, d.address ≠ address)
    (h : ¬ wallet.records.length < windowSize) (result : Except CliError PublicKey) :
    ¬ FindPublicKeyForAddress fromBytes profile wallet address (.returned result) := by
  intro hreturns
  obtain ⟨offset, -, hround⟩ := hreturns.last (fun _ _ _ _ => trivial) trivial
  rw [findRound_of_absent fromBytes habsent h] at hround
  split at hround
  · cases Sum.inr.inj hround
  · cases hround

end

/-! ## When the search is right -/

/-- **When the search is right**: the wallet has the address, or fewer derivations than a
window. -/
theorem found_iff {PublicKey : Type} (fromBytes : Bytes → Option PublicKey) (profile : Profile)
    (wallet : Wallet) (address : String) :
    FindPublicKeyForAddress fromBytes profile wallet address
        (.returned (answer fromBytes wallet address)) ↔
      (∃ d ∈ wallet.records, d.address = address) ∨ wallet.records.length < windowSize := by
  constructor
  · intro h
    by_contra hnot
    push Not at hnot
    exact not_found_of_absent hnot.1 (not_lt.2 hnot.2) _ h
  · rintro (hfound | hshort)
    · exact found_of_mem hfound
    · exact found_of_short hshort

theorem length_fullWindow (d : DerivationRecord) : (List.replicate 100 d).length < 2 ^ 32 := by
  rw [List.length_replicate]
  decide

/-- A wallet with one full window of derivations. -/
def fullWallet (d : DerivationRecord) : Wallet := ⟨List.replicate 100 d, length_fullWindow d⟩

/-- A derivation of another address. -/
def other : DerivationRecord := ⟨"", "xch1"⟩

/-- **The search of a full window without the address does not end**; with overflow checks it
panics behind the largest offset. -/
theorem found_fails : (∀ d ∈ (fullWallet other).records, d.address ≠ "xch2") ∧
    (∀ outcome, ¬ FindPublicKeyForAddress some .release (fullWallet other) "xch2" outcome) ∧
    ∀ outcome, FindPublicKeyForAddress some .dev (fullWallet other) "xch2" outcome →
      outcome = .panicked := by
  have habsent : ∀ d ∈ (fullWallet other).records, d.address ≠ "xch2" := by
    intro d hd
    rw [List.eq_of_mem_replicate hd]
    decide
  have hfull : ¬ (fullWallet other).records.length < windowSize := by decide
  refine ⟨habsent, fun outcome => ?_, fun outcome hreturns => ?_⟩
  · have hstep : ∀ offset, True → ∃ offset',
        findRound some .release (fullWallet other) "xch2" offset = .inl offset' ∧ True := by
      intro offset _
      obtain ⟨next, hnext⟩ := Profile.exists_add_release 32 offset windowSize
      rw [findRound_of_absent some habsent hfull, hnext]
      exact ⟨next, rfl, trivial⟩
    exact not_returns hstep trivial
  · cases outcome with
    | panicked => rfl
    | returned result => exact absurd hreturns (not_found_of_absent habsent hfull result)

end SlotMachine.Cli
