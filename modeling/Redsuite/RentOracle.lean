import Redsuite.Ephemeral

/-!
# The two accounts of rent

The oracle of ephemeral accounts keeps the money twice.
-/

namespace Redsuite.Redhat

open List Option Redhat.Action

/-! ### Turns -/

/-- The part of `Workload` that the oracle is made of. -/
structure Workload where
  keys : Keys
  expected : Images
  ledger : RentLedger

namespace Workload

/-- `Workload::step`, where the validator does what the oracle predicts; nothing if it fails. -/
def step (self : Workload) (chain : Chain) (action : Action) (fee : ℕ) : Option Workload :=
  (charged chain self.keys (self.expected, self.ledger) action fee).bind fun after =>
    (self.ledger.apply self.keys (self.keys action.sponsor) self.expected after.1).map fun ledger =>
      { self with expected := after.1, ledger }

def swap (self : Workload) : Workload :=
  { self with
    keys := self.keys ∘ Equiv.swap TARGET VICTIM
    expected := self.expected ∘ Equiv.swap TARGET VICTIM }

def stepVictim (self : Workload) (chain : Chain) (action : Action) (fee : ℕ) : Option Workload :=
  (self.swap.step chain action fee).map swap

end Workload

/-- An action, and whose it is. -/
structure Turn where
  victim : Bool
  action : Action
  fee : ℕ

def Workload.view (self : Workload) (turn : Turn) : Workload :=
  if turn.victim then self.swap else self

def Workload.turn (self : Workload) (chain : Chain) (turn : Turn) : Option Workload :=
  if turn.victim then self.stepVictim chain turn.action turn.fee
  else self.step chain turn.action turn.fee

/-! ### Agreement -/

def SPONSORS : List (Fin 6) := [PAYER, SPONSOR, SUBSTITUTE]

def TARGETS : List (Fin 6) := [TARGET, VICTIM]

def Images.total (images : Images) : ℕ :=
  ((List.finRange 6).map fun index => (images index).lamports).sum

def RentLedger.charges (ledger : RentLedger) (key : Pubkey) : ℕ × ℕ :=
  (ledger.sponsors.lookup key).getD (0, 0)

/-- The balance of a sponsor is what the ledger says. -/
def Workload.Agrees (workload : Workload) (place : Fin 6) : Prop :=
  workload.ledger.expected workload.keys (workload.keys place)
    (workload.ledger.charges (workload.keys place)).1
    (workload.ledger.charges (workload.keys place)).2 = some (workload.expected place).lamports

/-- A place whose balance only its own sponsorship changes. -/
def Steady (fees : Bool) (place : Fin 6) : Prop := place ≠ VAULT ∧ (fees = true → place ≠ PAYER)

/-- The ledger has no charges for the vault nor, where there are fees, for the payer. -/
def Workload.OnlySponsors (fees : Bool) (workload : Workload) : Prop :=
  ∀ place, ¬Steady fees place → workload.ledger.sponsors.lookup (workload.keys place) = none

/-- The beginning: the targets are not there, and the ledger agrees with the accounts. -/
structure Workload.Starts (workload : Workload) : Prop where
  distinct : Function.Injective workload.keys
  absent : ∀ place ∈ TARGETS, (workload.expected place).owner = systemId
  hollow : ∀ place ∈ TARGETS, (workload.expected place).lamports = 0
  deposits : ∀ place ∈ TARGETS, workload.ledger.deposits.lookup (workload.keys place) = some 0
  backed : workload.ledger.check (workload.expected VAULT).lamports = true
  sponsored : workload.ledger.checkSponsors workload.keys workload.expected = true
  agrees : ∀ place ∈ SPONSORS, workload.Agrees place

/-- What turns keep. -/
structure Workload.Consistent (chain : Chain) (fees : Bool) (workload : Workload) : Prop where
  distinct : Function.Injective workload.keys
  hollow : ∀ place ∈ TARGETS, (workload.expected place).lamports = 0
  deposits : ∀ place ∈ TARGETS, workload.ledger.deposits.lookup (workload.keys place) =
    some (oldRent chain (workload.expected place))
  backed : workload.ledger.check (workload.expected VAULT).lamports = true
  known : ∀ key charges, workload.ledger.sponsors.lookup key = some charges →
    ∃ place, Steady fees place ∧ key = workload.keys place ∧ workload.Agrees place
  agrees : ∀ place ∈ SPONSORS, (fees = true → place ≠ PAYER) → workload.Agrees place

/-- An action in question: its caller is a program, its sponsor a possible one, and there is no fee,
or the payer is not the sponsor. -/
structure Turn.Allowed (fees : Bool) (turn : Turn) : Prop where
  caller : turn.action.caller ≠ systemId
  sponsor : turn.action.sponsor ∈ SPONSORS
  payer : fees = true → turn.action.sponsor ≠ PAYER
  free : fees = false → turn.fee = 0

variable {p : Fin 6}

/-! ### What an action moves -/

section Moves

variable {chain : Chain} {a : Action} {images after : Images} {acc : Account} {rent : ℕ}

theorem Action.effect_changed (a : Action) (acc : Account) :
    (a.effect acc).owner = (a.changed acc).owner ∧
    (a.effect acc).lamports = (a.changed acc).lamports ∧
    (a.effect acc).data.length = (a.changed acc).data.length := by
  rw [effect]
  split
  · exact ⟨rfl, rfl, length_map _⟩
  · exact ⟨rfl, rfl, rfl⟩

theorem Action.changed_rent (hcaller : a.caller ≠ systemId)
    (h : a.newRent chain acc = .ok rent) :
    oldRent chain (a.changed acc) = rent := by
  have hpresent {acc : Account} (howner : acc.owner = a.caller) :
      acc.present = true := decide_eq_true (howner ▸ hcaller)
  rw [newRent] at h
  rw [oldRent]
  cases hop : a.operation with
  | create dataLen =>
    rw [hop] at h
    dsimp only at h
    split at h
    · cases h
    · have howner : (a.changed acc).owner = a.caller := by rw [changed, hop]
      have hdata : (a.changed acc).data.length = dataLen.toNat := by
        rw [changed, hop]
        exact length_replicate
      rw [if_pos (hpresent howner), Chain.rentOf, hdata, UInt32.ofNat_toNat]
      exact Except.ok.inj h
  | resize newDataLen =>
    rw [hop] at h
    dsimp only at h
    split at h
    · cases h
    · split at h
      · cases h
      · rename_i howner
        have howner : (a.changed acc).owner = a.caller := by
          rw [changed, hop]
          exact not_not.mp howner
        have hdata : (a.changed acc).data.length = newDataLen.toNat := by
          rw [changed, hop]
          rw [length_append, length_take, length_replicate]
          omega
        rw [if_pos (hpresent howner), Chain.rentOf, hdata, UInt32.ofNat_toNat]
        exact Except.ok.inj h
  | close =>
    rw [hop] at h
    dsimp only at h
    split at h
    · cases h
    · split at h
      · cases h
      · rw [changed, hop]
        exact Except.ok.inj h

theorem Action.effect_rent (hcaller : a.caller ≠ systemId)
    (h : a.newRent chain acc = .ok rent) :
    oldRent chain (a.effect acc) = rent := by
  obtain ⟨howner, -, hlen⟩ := a.effect_changed acc
  rw [← changed_rent hcaller h, oldRent, oldRent, Account.present, Account.present, howner,
    Chain.rentOf, Chain.rentOf, hlen]

theorem Action.effect_lamports (h : acc.lamports = 0) : (a.effect acc).lamports = 0 := by
  rw [(a.effect_changed acc).2.1, changed]
  split
  · exact h
  · exact h
  · rfl

/-- What an action moves: the sponsor pays into the vault or is paid from it, and the target
becomes another account without a balance. -/
structure Flow (chain : Chain) (funder : Fin 6) (before after : Images) (paid refunded : ℕ) :
    Prop where
  once : paid = 0 ∨ refunded = 0
  sponsor : (after funder).lamports + paid = (before funder).lamports + refunded
  vault : (after VAULT).lamports + refunded = (before VAULT).lamports + paid
  room : paid ≠ 0 → (before VAULT).lamports + paid < 2 ^ 64
  rent : oldRent chain (after TARGET) + refunded = oldRent chain (before TARGET) + paid
  hollow : (after TARGET).lamports = 0
  others : ∀ place, place ≠ funder → place ≠ VAULT → place ≠ TARGET → after place = before place

theorem Flow.same (chain : Chain) (sponsor : Fin 6) (h : (images TARGET).lamports = 0) :
    Flow chain sponsor images images 0 0 :=
  ⟨.inl rfl, rfl, rfl, fun h => absurd rfl h, rfl, h, fun _ _ _ _ => rfl⟩

theorem ne_of_mem_sponsors (h : p ∈ SPONSORS) : p ≠ VAULT ∧ p ≠ TARGET ∧ p ≠ VICTIM := by
  revert p
  decide

theorem checkedMove_some {balance credit debit r : ℕ}
    (h : (checkedAdd balance credit).bind (checkedSub · debit) = some r) :
    r + debit = balance + credit ∧ balance + credit < 2 ^ 64 := by
  obtain ⟨sum, hsum, hres⟩ := bind_eq_some_iff.mp h
  rw [checkedAdd] at hsum
  split at hsum
  · rename_i hlt
    cases hsum
    exact ⟨(checkedSub_some.mp hres).symm, hlt⟩
  · cases hsum

/-- An action that fails changes nothing; another moves the change of the rent, if the deposit of
the target is its rent. -/
theorem Action.apply_flow (chain : Chain) (hcaller : a.caller ≠ systemId)
    (hspn : a.sponsor ∈ SPONSORS) (hhollow : (images TARGET).lamports = 0) :
    ∃ paid refunded, Flow chain a.sponsor images
      (a.apply chain images (oldRent chain (images TARGET))).1 paid refunded ∧
    ((a.apply chain images (oldRent chain (images TARGET))).2 ≠ none →
      (a.apply chain images (oldRent chain (images TARGET))).1 = images) := by
  rw [Action.apply]
  dsimp only
  split
  · exact ⟨0, 0, .same chain _ hhollow, fun _ => rfl⟩
  · rename_i rent hrent
    split
    · exact ⟨0, 0, .same chain _ hhollow, fun _ => rfl⟩
    · rename_i sponsor hpays
      split
      · exact ⟨0, 0, .same chain _ hhollow, fun _ => rfl⟩
      · rename_i vault hvlt
        obtain ⟨hneVault, hneTarget, -⟩ := ne_of_mem_sponsors hspn
        obtain ⟨hpays, -⟩ := checkedMove_some hpays
        obtain ⟨hvlt, hroom⟩ := checkedMove_some hvlt
        generalize hold : oldRent chain (images TARGET) = old at *
        -- the refund is not clipped
        have hclip : min (old - rent) old = old - rent := Nat.min_eq_left (Nat.sub_le _ _)
        rw [hclip] at hpays hvlt
        refine ⟨rent - old, old - rent, ⟨by omega, ?_, ?_, fun _ => hroom, ?_, ?_, ?_⟩,
          fun h => absurd rfl h⟩ <;> dsimp only
        · rw [Images.setLamports_ne _ _ hneVault, Images.setLamports_self]
          exact hpays
        · exact hvlt
        · rw [Images.setLamports_ne _ _ (by decide), Images.setLamports_ne _ _ hneTarget.symm,
            Function.update_self, effect_rent hcaller hrent, hold]
          omega
        · rw [Images.setLamports_ne _ _ (by decide), Images.setLamports_ne _ _ hneTarget.symm,
            Function.update_self]
          exact effect_lamports hhollow
        · intro p hpl hplaceVault hplaceTarget
          rw [Images.setLamports_ne _ _ hplaceVault, Images.setLamports_ne _ _ hpl,
            Function.update_of_ne hplaceTarget]

theorem Flow.total {sponsor : Fin 6} {before : Images} {paid refunded : ℕ}
    (h : Flow chain sponsor before after paid refunded) (hspn : sponsor ∈ SPONSORS)
    (hhollow : (before TARGET).lamports = 0) : after.total = before.total := by
  have hsum (images : Images) : images.total = (images PAYER).lamports + ((images SPONSOR).lamports +
      ((images TARGET).lamports + ((images VAULT).lamports + ((images SUBSTITUTE).lamports +
      ((images VICTIM).lamports + 0))))) := rfl
  have hvic := congrArg Account.lamports
    (h.others VICTIM (ne_of_mem_sponsors hspn).2.2.symm (by decide) (by decide))
  have htgt := h.hollow
  have hpays := h.sponsor
  have hvlt := h.vault
  have hos (p : Fin 6) (hne : p ≠ sponsor) (hvlt : p ≠ VAULT)
      (htgt : p ≠ TARGET) : (after p).lamports = (before p).lamports :=
    congrArg Account.lamports (h.others p hne hvlt htgt)
  rw [hsum, hsum]
  rcases mem_cons.mp hspn with rfl | hspn
  · have := hos SPONSOR (by decide) (by decide) (by decide)
    have := hos SUBSTITUTE (by decide) (by decide) (by decide)
    omega
  · rcases mem_cons.mp hspn with rfl | hspn
    · have := hos PAYER (by decide) (by decide) (by decide)
      have := hos SUBSTITUTE (by decide) (by decide) (by decide)
      omega
    · obtain rfl := mem_singleton.mp hspn
      have := hos PAYER (by decide) (by decide) (by decide)
      have := hos SPONSOR (by decide) (by decide) (by decide)
      omega

end Moves

/-! ### What the ledger books -/

/-- What a step books. -/
structure RentLedger.Books (target sponsor : Pubkey) (paid refunded : ℕ)
    (ledger next : RentLedger) :
    Prop where
  deposit : next.deposits.lookup target = (ledger.deposits.lookup target).map (· + paid - refunded)
  others : ∀ key, key ≠ target → next.deposits.lookup key = ledger.deposits.lookup key
  total : Table.total next.deposits + refunded = Table.total ledger.deposits + paid
  charges : next.charges sponsor =
    ((ledger.charges sponsor).1 + paid, (ledger.charges sponsor).2 + refunded)
  rest : ∀ key, key ≠ sponsor → next.sponsors.lookup key = ledger.sponsors.lookup key
  frame : next.openingSponsors = ledger.openingSponsors ∧ next.floor = ledger.floor ∧
    next.surplus = ledger.surplus

section Books

variable {ledger next : RentLedger} {t sponsor : Pubkey} {paid refunded deposit old new : ℕ}
  {keys : Keys}

theorem RentLedger.deposit_le (h : ledger.deposits.lookup t = some deposit) :
    deposit ≤ Table.total ledger.deposits := by
  have htot := Table.total_insert ledger.deposits t 0
  rw [h, getD_some] at htot
  omega

section

variable (hdep : ledger.deposits.lookup t = some deposit)

include hdep

theorem RentLedger.pay_books (hroom : deposit + paid < 2 ^ 64)
    (hchg : (ledger.charges sponsor).1 + paid < 2 ^ 64) :
    Books t sponsor paid 0 ledger (ledger.pay t sponsor paid) := by
  have htot := Table.total_insert ledger.deposits t (deposit + paid)
  rw [hdep, getD_some] at htot
  rw [pay, hdep, getD_some, Nat.mod_eq_of_lt hroom, ← charges, Nat.mod_eq_of_lt hchg]
  refine ⟨?_, fun key hk => AList.lookup_insert_ne hk, ?_, ?_,
    fun key hk => AList.lookup_insert_ne hk, rfl, rfl, rfl⟩
  · rw [AList.lookup_insert, hdep]
    rfl
  · dsimp only
    omega
  · rw [charges]
    rw [AList.lookup_insert]
    rfl

theorem RentLedger.refund_books (hrefund : refunded ≤ deposit)
    (hchg : (ledger.charges sponsor).2 + refunded < 2 ^ 64) : ∃ next, ledger.refund t sponsor
    refunded = some next ∧ Books t sponsor 0 refunded ledger next := by
  have htot := Table.total_insert ledger.deposits t (deposit - refunded)
  rw [hdep, getD_some] at htot
  rw [refund, hdep, getD_some, if_pos hrefund, ← charges, Nat.mod_eq_of_lt hchg]
  refine ⟨_, rfl, ?_, fun key hk => AList.lookup_insert_ne hk, ?_, ?_,
    fun key hk => AList.lookup_insert_ne hk, rfl, rfl, rfl⟩
  · rw [AList.lookup_insert, hdep]
    rfl
  · dsimp only
    omega
  · rw [charges]
    rw [AList.lookup_insert]
    rfl

theorem RentLedger.moved_books (honce : paid = 0 ∨ refunded = 0)
    (hvlt : new + refunded = old + paid) (hrefund : refunded ≤ deposit)
    (hpaid : paid ≠ 0 → deposit + paid < 2 ^ 64 ∧ (ledger.charges sponsor).1 + paid < 2 ^ 64)
    (hrefunded : refunded ≠ 0 → (ledger.charges sponsor).2 + refunded < 2 ^ 64) : ∃ next,
    ledger.moved t sponsor old new = some next ∧ Books t sponsor paid refunded ledger next := by
  rw [moved]
  split
  · -- nothing was moved
    obtain rfl : paid = 0 := by omega
    obtain rfl : refunded = 0 := by omega
    refine ⟨ledger, rfl, ?_, fun _ _ => rfl, rfl, rfl, fun _ _ => rfl, rfl, rfl, rfl⟩
    rw [hdep]
    rfl
  · split
    · obtain rfl : refunded = 0 := by omega
      obtain ⟨hroom, hchg⟩ := hpaid (by omega)
      obtain rfl : paid = new - old := by omega
      exact ⟨_, rfl, pay_books hdep hroom hchg⟩
    · obtain rfl : paid = 0 := by omega
      obtain rfl : refunded = old - new := by omega
      exact refund_books hdep hrefund (hrefunded (by omega))

end

theorem RentLedger.expected_iff {key : Pubkey} {lamports : ℕ} :
    ledger.expected keys key paid refunded = some lamports ↔
      ∃ opening, ledger.openingSponsors.lookup key = some opening ∧ opening + refunded < 2 ^ 64 ∧
        opening + refunded =
          lamports + (if key = keys PAYER then ledger.surplus else 0) + paid := by
  rw [expected, bind_eq_some_iff]
  refine exists_congr fun opening => and_congr_right fun _ => ?_
  rw [bind_eq_some_iff]
  constructor
  · rintro ⟨balance, hbal, hlam⟩
    obtain ⟨hsum, hroom⟩ := checkedMove_some hbal
    exact ⟨hroom, by rw [← hsum, checkedSub_some.mp hlam]⟩
  · rintro ⟨hroom, hsum⟩
    refine ⟨lamports + if key = keys PAYER then ledger.surplus else 0, ?_, checkedSub_some.mpr rfl⟩
    rw [checkedAdd, if_pos hroom]
    exact checkedSub_some.mpr hsum

theorem RentLedger.check_iff {vault : ℕ} : ledger.check vault = true ↔
    ledger.floor ≤ vault ∧ Table.total ledger.deposits + ledger.surplus ≤ vault - ledger.floor := by
  rw [check, Bool.and_eq_true, decide_eq_true_iff, decide_eq_true_iff]

theorem RentLedger.Books.check (h : Books t sponsor paid refunded ledger next)
    (hvlt : new + refunded = old + paid) (hcheck : ledger.check old = true) :
    next.check new = true := by
  obtain ⟨-, hfloor, hsurplus⟩ := h.frame
  have htot := h.total
  rw [check_iff] at hcheck ⊢
  omega

theorem RentLedger.Books.expected_self (h : Books t sponsor paid refunded ledger next)
    {lamports after : ℕ} (hbal : after + paid = lamports + refunded)
    (hfit : ∀ opening, ledger.openingSponsors.lookup sponsor = some opening →
      opening + (ledger.charges sponsor).2 + refunded < 2 ^ 64)
    (hexpd : ledger.expected keys sponsor (ledger.charges sponsor).1
      (ledger.charges sponsor).2 = some lamports) :
    next.expected keys sponsor (next.charges sponsor).1 (next.charges sponsor).2 = some after := by
  obtain ⟨hopenings, -, hsurplus⟩ := h.frame
  obtain ⟨opening, hopg, -, hsum⟩ := expected_iff.mp hexpd
  have hroom := hfit opening hopg
  refine expected_iff.mpr ⟨opening, by rw [hopenings]; exact hopg, ?_⟩
  rw [h.charges, hsurplus]
  omega

theorem RentLedger.Books.expected_ne (h : Books t sponsor paid refunded ledger next)
    {key : Pubkey} (hk : key ≠ sponsor) :
    next.expected keys key (next.charges key).1 (next.charges key).2 =
      ledger.expected keys key (ledger.charges key).1 (ledger.charges key).2 := by
  obtain ⟨hopenings, -, hsurplus⟩ := h.frame
  rw [RentLedger.charges, RentLedger.charges, h.rest key hk, expected, expected, hopenings,
    hsurplus]

theorem keys_of_position {key : Pubkey} (h : position keys key = some p) : keys p = key := by
  simpa using find?_some h

theorem position_self (h : Function.Injective keys) (p : Fin 6) :
    position keys (keys p) = some p := by
  have hsm : (fun i => decide (keys i = keys p)) = fun i => decide (i = p) :=
    funext fun i => decide_eq_decide.mpr h.eq_iff
  rw [position, hsm]
  clear hsm
  revert p
  decide

end Books

/-! ### Turns keep the agreement -/

def Workload.refunds (workload : Workload) (chain : Chain) (action : Action) : ℕ :=
  (workload.expected VAULT).lamports - ((action.apply chain workload.expected
    ((workload.ledger.deposits.lookup (workload.keys TARGET)).getD 0)).1 VAULT).lamports

/-- What the sponsor of an action had in the beginning and got back, with this action, fit in 64
bits. -/
def Workload.Fits (workload : Workload) (chain : Chain) (action : Action) : Prop :=
  ∀ opening, workload.ledger.openingSponsors.lookup (workload.keys action.sponsor) = some opening →
    opening + (workload.ledger.charges (workload.keys action.sponsor)).2 +
      workload.refunds chain action < 2 ^ 64

section Turns

variable {chain : Chain} {fees : Bool} {w next : Workload} {turn : Turn}

theorem Workload.Consistent.checkSponsors (h : w.Consistent chain fees) :
    w.ledger.checkSponsors w.keys w.expected = true := by
  refine (Table.all_iff _).mpr fun key charges hchg => ?_
  obtain ⟨p, -, rfl, hagree⟩ := h.known key charges hchg
  rw [Agrees, RentLedger.charges, hchg] at hagree
  rw [position_self h.distinct]
  exact decide_eq_true hagree

theorem Workload.Starts.agree (h : w.Starts) {charges : ℕ × ℕ}
    (hchg : w.ledger.sponsors.lookup (w.keys p) = some charges) : w.Agrees p := by
  have hsponsored := (Table.all_iff _).mp h.sponsored _ charges hchg
  rw [position_self h.distinct] at hsponsored
  rw [Agrees, RentLedger.charges, hchg]
  exact of_decide_eq_true hsponsored

theorem Workload.Consistent.moved (h : w.Consistent chain fees) {a : Action}
    (hspn : a.sponsor ∈ SPONSORS) (hpay : fees = true → a.sponsor ≠ PAYER)
    (hfits : w.Fits chain a) {applied : Images} {paid refunded : ℕ}
    (happlied : (a.apply chain w.expected
      (oldRent chain (w.expected TARGET))).1 = applied)
    (hflow : Flow chain a.sponsor w.expected applied paid refunded) :
    (∃ next, w.ledger.moved (w.keys TARGET) (w.keys a.sponsor)
        (w.expected VAULT).lamports (applied VAULT).lamports = some next ∧
      RentLedger.Books (w.keys TARGET) (w.keys a.sponsor) paid refunded
        w.ledger next) ∧
    ∀ opening, w.ledger.openingSponsors.lookup (w.keys a.sponsor) = some opening →
      opening + (w.ledger.charges (w.keys a.sponsor)).2 + refunded < 2 ^ 64 := by
  have hdep := h.deposits TARGET mem_cons_self
  obtain ⟨opening, hopg, -, hbal⟩ :=
    RentLedger.expected_iff.mp (h.agrees a.sponsor hspn hpay)
  have hle := RentLedger.deposit_le hdep
  have hbacked := RentLedger.check_iff.mp h.backed
  have honce := hflow.once
  have hpays := hflow.sponsor
  have hvlt := hflow.vault
  have hrent := hflow.rent
  have hroom := hflow.room
  have hrefunds : w.refunds chain a = refunded := by
    rw [refunds, hdep, getD_some, happlied]
    omega
  have hfit (opening : ℕ) (hlk : w.ledger.openingSponsors.lookup
      (w.keys a.sponsor) = some opening) :
      opening + (w.ledger.charges (w.keys a.sponsor)).2 + refunded < 2 ^ 64 := by
    have := hfits opening hlk
    rwa [hrefunds] at this
  have hfitOpening := hfit opening hopg
  refine ⟨RentLedger.moved_books hdep honce hvlt (by omega) (fun hpaid => ?_)
    fun _ => by omega, hfit⟩
  omega

/-- **An action keeps the agreement.** Where the fee can be paid and the amounts fit, the ledger
takes the action in. -/
theorem Workload.Consistent.step (h : w.Consistent chain fees) {turn : Turn}
    (hturn : turn.Allowed fees) (hfits : w.Fits chain turn.action) {after : Images}
    {out : Option UiTransactionError}
    (hchgd : charged chain w.keys (w.expected, w.ledger) turn.action
      turn.fee = some (after, out)) :
    ∃ next, w.ledger.apply w.keys (w.keys turn.action.sponsor) w.expected
        after = some next ∧
      Consistent chain fees { w with expected := after, ledger := next } := by
  obtain ⟨deposit, lamports, hdep, hlam, haf, -⟩ := charged_some hchgd
  cases (h.deposits TARGET mem_cons_self).symm.trans hdep
  obtain ⟨paid, refunded, hflow, -⟩ := apply_flow chain hturn.caller hturn.sponsor
    (h.hollow TARGET mem_cons_self)
  generalize happlied : (turn.action.apply chain w.expected
    (oldRent chain (w.expected TARGET))).1 = applied at hflow hlam haf
  obtain ⟨⟨next, hmv, hbk⟩, hfit⟩ := h.moved hturn.sponsor hturn.payer hfits happlied hflow
  -- the fee is all that changes then
  have hsm {p : Fin 6} (hpl : p ≠ PAYER) : after p = applied p := by
    rw [haf, Images.setLamports_ne _ _ hpl]
  have hbal {p : Fin 6} (hpl : fees = true → p ≠ PAYER) :
      (after p).lamports = (applied p).lamports := by
    by_cases hpay : p = PAYER
    · have hfree : turn.fee = 0 := hturn.free (Bool.eq_false_iff.mpr fun hfees => hpl hfees hpay)
      rw [hpay, haf, checkedSub_some.mp hlam, hfree]
      rfl
    · rw [hsm hpay]
  have hos {p : Fin 6} (hne : p ≠ turn.action.sponsor) (hvlt : p ≠ VAULT)
      (htgt : p ≠ TARGET) : applied p = w.expected p :=
    hflow.others p hne hvlt htgt
  have hvic : after VICTIM = w.expected VICTIM := by
    rw [hsm (by decide), hos (ne_of_mem_sponsors hturn.sponsor).2.2.symm (by decide) (by decide)]
  have htgt : (after TARGET).lamports = 0 :=
    (congrArg Account.lamports (hsm (by decide))).trans hflow.hollow
  have hrent := hflow.rent
  -- what agreed before agrees again: the sponsor has moved as the ledger says, the rest not at all
  have hagree {p : Fin 6} (hpl : Steady fees p) (hold : w.Agrees p) :
      Agrees { w with expected := after, ledger := next } p := by
    rw [Agrees]
    by_cases heq : p = turn.action.sponsor
    · subst heq
      rw [hbal hpl.2]
      exact hbk.expected_self hflow.sponsor hfit hold
    · rw [hbk.expected_ne (h.distinct.ne heq)]
      refine hold.trans (congrArg some ?_)
      by_cases hp : p = TARGET
      · rw [hp, htgt, h.hollow TARGET mem_cons_self]
      · rw [hbal hpl.2, hos heq hpl.1 hp]
  have hnx : Consistent chain fees { w with expected := after, ledger := next } := by
    refine ⟨h.distinct, ?_, ?_, ?_, ?_, ?_⟩
    · refine forall_mem_cons.mpr ⟨htgt, forall_mem_singleton.mpr ?_⟩
      exact (congrArg Account.lamports hvic).trans (h.hollow VICTIM (by decide))
    · refine forall_mem_cons.mpr ⟨?_, forall_mem_singleton.mpr ?_⟩ <;> dsimp only
      · rw [hbk.deposit, hdep, hsm (by decide)]
        refine congrArg some ?_
        change oldRent chain (w.expected TARGET) + paid - refunded = _
        omega
      · rw [hbk.others _ (h.distinct.ne (by decide)), hvic]
        exact h.deposits VICTIM (by decide)
    · have hvlt : (after VAULT).lamports + refunded = (w.expected VAULT).lamports + paid := by
        rw [hsm (by decide)]
        exact hflow.vault
      exact hbk.check hvlt h.backed
    · intro key charges hchg
      by_cases hk : key = w.keys turn.action.sponsor
      · have hsteady : Steady fees turn.action.sponsor :=
          ⟨(ne_of_mem_sponsors hturn.sponsor).1, hturn.payer⟩
        exact ⟨_, hsteady, hk, hagree hsteady (h.agrees _ hturn.sponsor hturn.payer)⟩
      · obtain ⟨p, hpl, hkey, hold⟩ := h.known key charges ((hbk.rest key hk).symm.trans hchg)
        exact ⟨p, hpl, hkey, hagree hpl hold⟩
    · intro p hpl hpay
      exact hagree ⟨(ne_of_mem_sponsors hpl).1, hpay⟩ (h.agrees p hpl hpay)
  refine ⟨next, ?_, hnx⟩
  rw [RentLedger.apply, hsm (show VAULT ≠ PAYER by decide), hmv, bind_some, if_pos]
  refine Bool.and_eq_true_iff.mpr ⟨?_, hnx.checkSponsors⟩
  exact hsm (show VAULT ≠ PAYER by decide) ▸ hnx.backed

theorem Workload.Agrees.swap (h : w.Agrees (Equiv.swap TARGET VICTIM p)) : w.swap.Agrees p := h

theorem Workload.Consistent.swap (h : w.Consistent chain fees) :
    w.swap.Consistent chain fees := by
  have htargets : ∀ p ∈ TARGETS, Equiv.swap TARGET VICTIM p ∈ TARGETS := by decide
  have hsponsors : ∀ p ∈ SPONSORS, Equiv.swap TARGET VICTIM p = p := by decide
  have hsteady : ∀ p, Steady fees p → Steady fees (Equiv.swap TARGET VICTIM p) := by
    simp only [Steady]
    cases fees <;> decide
  refine ⟨h.distinct.comp (Equiv.swap TARGET VICTIM).injective,
    fun p hpl => h.hollow _ (htargets p hpl),
    fun p hpl => h.deposits _ (htargets p hpl), h.backed, fun key charges hchg => ?_,
    fun p hpl hpay => ?_⟩
  · obtain ⟨p, hpl, hk, hagrees⟩ := h.known key charges hchg
    have hback : Equiv.swap TARGET VICTIM (Equiv.swap TARGET VICTIM p) = p :=
      Equiv.swap_apply_self _ _ _
    refine ⟨_, hsteady p hpl, hk.trans (congrArg w.keys hback.symm), Agrees.swap ?_⟩
    rwa [hback]
  · refine Agrees.swap ?_
    rw [hsponsors p hpl]
    exact h.agrees p hpl hpay

theorem Workload.Starts.consistent (h : w.Starts) (hknown : w.OnlySponsors fees)
    (chain : Chain) : w.Consistent chain fees := by
  refine ⟨h.distinct, h.hollow, fun p hpl => ?_, h.backed, fun key charges hchg => ?_,
    fun p hpl _ => h.agrees p hpl⟩
  · rw [h.deposits p hpl, oldRent, Account.present, h.absent p hpl]
    rfl
  · -- a key with charges is one of the six, or the check of the beginning had failed
    cases hpos : position w.keys key with
    | none =>
      have hsponsored := (Table.all_iff _).mp h.sponsored key charges hchg
      rw [hpos] at hsponsored
      cases hsponsored
    | some p =>
      obtain rfl := keys_of_position hpos
      refine ⟨p, ?_, rfl, h.agree hchg⟩
      by_contra hno
      cases (hknown p hno).symm.trans hchg

theorem Workload.Consistent.view (h : w.Consistent chain fees) (turn : Turn) :
    (w.view turn).Consistent chain fees := by
  rw [Workload.view]
  split
  · exact h.swap
  · exact h

theorem Workload.Consistent.carry (h : w.Consistent chain fees) (hturn : turn.Allowed fees)
    (hfits : (w.view turn).Fits chain turn.action)
    (hpaid : (charged chain (w.view turn).keys ((w.view turn).expected,
      (w.view turn).ledger) turn.action turn.fee).isSome = true) :
    ∃ next, w.turn chain turn = some next ∧ next.Consistent chain fees := by
  obtain ⟨⟨after, out⟩, hchgd⟩ := isSome_iff_exists.mp hpaid
  obtain ⟨ledger, hldg, hnx⟩ := (h.view turn).step hturn hfits hchgd
  have hst : (w.view turn).step chain turn.action turn.fee =
      some { w.view turn with expected := after, ledger } := by
    rw [Workload.step, hchgd, bind_some, hldg, map_some]
  rw [Workload.view] at hst hnx
  rw [Workload.turn]
  split at hst
  · rename_i hvic
    rw [if_pos hvic] at hnx ⊢
    rw [stepVictim, hst]
    exact ⟨_, rfl, hnx.swap⟩
  · rename_i hvic
    rw [if_neg hvic] at hnx ⊢
    exact ⟨_, hst, hnx⟩

theorem Workload.paid_of_turn (h : w.turn chain turn = some next) :
    (charged chain (w.view turn).keys ((w.view turn).expected,
      (w.view turn).ledger) turn.action turn.fee).isSome = true := by
  rw [Workload.turn] at h
  rw [Workload.view]
  split at h
  · rename_i hvic
    rw [if_pos hvic]
    obtain ⟨swapped, hswapped, -⟩ := map_eq_some_iff.mp h
    obtain ⟨after, haf, -⟩ := bind_eq_some_iff.mp hswapped
    exact isSome_of_mem haf
  · rename_i hvic
    rw [if_neg hvic]
    obtain ⟨after, haf, -⟩ := bind_eq_some_iff.mp h
    exact isSome_of_mem haf

end Turns

/-- A workload after some actions that are allowed, and whose amounts fit. -/
inductive Turns (chain : Chain) (fees : Bool) (start : Workload) : Workload → Prop
  | start : Turns chain fees start start
  | turn {workload next : Workload} (turn : Turn) (h : Turns chain fees start workload)
      (hallowed : turn.Allowed fees) (hfits : (workload.view turn).Fits chain turn.action)
      (hnext : workload.turn chain turn = some next) : Turns chain fees start next

theorem Turns.consistent {chain : Chain} {fees : Bool} {start w : Workload}
    (hsr : start.Consistent chain fees) (h : Turns chain fees start w) :
    w.Consistent chain fees := by
  induction h with
  | start => exact hsr
  | turn turn _ hallowed hfits hnx ih =>
    obtain ⟨after, haf, hconsistent⟩ := ih.carry hallowed hfits (Workload.paid_of_turn hnx)
    cases hnx.symm.trans haf
    exact hconsistent

/-- **The two accounts of rent agree.** Let a sequence of actions start with absent targets and
with a ledger that agrees with the accounts and has charges neither for the vault nor, if there are
fees, for the payer. Then the deposit of a target is always its rent, or zero if it is not
there. A further action conserves the balances and changes nothing if it is to fail, its refund is
not clipped by the deposit, and the ledger takes it in, if its fee can be paid and the amounts
fit. -/
theorem rent_agrees (chain : Chain) (fees : Bool) (start workload : Workload)
    (hstart : start.Starts)
    (hknown : start.OnlySponsors fees) (h : Turns chain fees start workload) :
    (∀ place ∈ TARGETS, workload.ledger.deposits.lookup (workload.keys place) =
      some (if (workload.expected place).owner ≠ systemId then
        chain.rentOf (workload.expected place).data else 0)) ∧
    ∀ (turn : Turn) (deposit : ℕ), turn.Allowed fees →
      (workload.view turn).ledger.deposits.lookup ((workload.view turn).keys TARGET) = some deposit →
      (turn.action.apply chain (workload.view turn).expected deposit).1.total =
        (workload.view turn).expected.total ∧
      ((turn.action.apply chain (workload.view turn).expected deposit).2 ≠ none →
        (turn.action.apply chain (workload.view turn).expected deposit).1 =
          (workload.view turn).expected) ∧
      (∀ rent, min (oldRent chain ((workload.view turn).expected TARGET) - rent) deposit =
        oldRent chain ((workload.view turn).expected TARGET) - rent) ∧
      (turn.fee ≤ ((turn.action.apply chain (workload.view turn).expected deposit).1
          PAYER).lamports →
        (workload.view turn).Fits chain turn.action →
        ∃ next, workload.turn chain turn = some next) := by
  have hconsistent := h.consistent (hstart.consistent hknown chain)
  refine ⟨fun place hplace => ?_, fun turn deposit hturn hdeposit => ?_⟩
  · rw [hconsistent.deposits place hplace, oldRent, Account.present]
    simp only [decide_eq_true_eq]
  · have hview := hconsistent.view turn
    have hhollow := hview.hollow TARGET mem_cons_self
    cases (hview.deposits TARGET mem_cons_self).symm.trans hdeposit
    obtain ⟨paid, refunded, hflow, hfails⟩ :=
      apply_flow chain hturn.caller hturn.sponsor hhollow
    refine ⟨hflow.total hturn.sponsor hhollow, hfails, fun rent => Nat.min_eq_left (Nat.sub_le _ _),
      fun hfee hfits => ?_⟩
    have hpaid : (charged chain (workload.view turn).keys ((workload.view turn).expected,
        (workload.view turn).ledger) turn.action turn.fee).isSome = true := by
      rw [charged, hdeposit, bind_some]
      rw [isSome_map, checkedSub, if_pos hfee]
      rfl
    obtain ⟨next, hnext, -⟩ := hconsistent.carry hturn hfits hpaid
    exact ⟨next, hnext⟩

def sampleWorkload (sponsors : Table Pubkey (ℕ × ℕ)) : Workload :=
  ⟨sampleKeys, sampleImages 100 500 1000 empty, { sampleLedger with sponsors }⟩

def sampleTurn : Turn := ⟨true, ⟨.create 2, 77, 1, SPONSOR⟩, 5⟩

theorem sampleTurn_allowed : sampleTurn.Allowed true := ⟨by decide, by decide, by decide, nofun⟩

theorem sampleTurn_fits (sponsors : Table Pubkey (ℕ × ℕ))
    (hchg : ((sampleWorkload sponsors).view sampleTurn).ledger.charges
      (((sampleWorkload sponsors).view sampleTurn).keys sampleTurn.action.sponsor) = (0, 0))
    (hrefunds : ((sampleWorkload sponsors).view sampleTurn).refunds sampleChain
      sampleTurn.action = 0) :
    ((sampleWorkload sponsors).view sampleTurn).Fits sampleChain sampleTurn.action := by
  intro opening hopg
  obtain rfl : 500 = opening := some.inj hopg
  rw [hrefunds, hchg]
  decide

def sampleAfter : Workload :=
  ((sampleWorkload ∅).turn sampleChain sampleTurn).getD (sampleWorkload ∅)

theorem rent_agrees_sample :
    sampleAfter.ledger.deposits.lookup (sampleAfter.keys VICTIM) = some 100 := by
  have hstarts : (sampleWorkload ∅).Starts :=
    ⟨by decide, by decide, by decide, by decide, by decide, by decide,
      by unfold Workload.Agrees; decide⟩
  have hturn : (sampleWorkload ∅).turn sampleChain sampleTurn = some sampleAfter := by
    have hsome : ((sampleWorkload ∅).turn sampleChain sampleTurn).isSome = true := by decide +kernel
    obtain ⟨after, hafter⟩ := isSome_iff_exists.mp hsome
    rfl
  exact ((rent_agrees sampleChain true (sampleWorkload ∅) sampleAfter hstarts
    (fun _ _ => rfl)
    (.turn sampleTurn .start sampleTurn_allowed
      (sampleTurn_fits ∅ rfl (by decide +kernel)) hturn)).1 VICTIM
    (by decide)).trans (by decide +kernel)

/-- The same action, where the ledger has charges for the payer: it does not know of the fee. -/
theorem fee_breaks_agreement :
    (sampleWorkload (AList.insert 10 (0, 0) ∅)).Starts ∧ sampleTurn.Allowed true ∧
    ((sampleWorkload (AList.insert 10 (0, 0) ∅)).view sampleTurn).Fits sampleChain sampleTurn.action ∧
    sampleTurn.fee ≤ (((sampleWorkload (AList.insert 10 (0, 0) ∅)).view sampleTurn).expected
      PAYER).lamports ∧
    (sampleWorkload (AList.insert 10 (0, 0) ∅)).turn sampleChain sampleTurn = none := by
  refine ⟨⟨by decide, by decide, by decide, by decide, by decide, by decide,
    by unfold Workload.Agrees; decide⟩, sampleTurn_allowed, sampleTurn_fits _ rfl (by decide +kernel),
    by decide, ?_⟩
  decide +kernel

/-- Without a fee, where the ledger has charges for the vault: it does not know of the rent. -/
theorem vault_breaks_agreement :
    let ledger := { sampleLedger with
      sponsors := AList.insert 13 (0, 0) ∅, openingSponsors := AList.insert 13 1000
        sampleLedger.openingSponsors }
    let start : Workload := { sampleWorkload ∅ with ledger }
    let turn := { sampleTurn with fee := 0 }
    start.Starts ∧ turn.Allowed false ∧ start.turn sampleChain turn = none := by
  refine ⟨⟨by decide, by decide, by decide, by decide, by decide, by decide, ?_⟩,
    ⟨by decide, by decide, by decide, fun _ => rfl⟩, by decide +kernel⟩
  unfold Workload.Agrees
  decide

end Redsuite.Redhat
