import BracketChain.Conservation
import BracketChain.Splits

namespace BracketChain.Payable

open Outcome Keys Records Accounts Payout Registration Start Settlement Program Runs Layout View Lifecycle
  FinalizeEffects Refinement Lives Drain Backstop Balance Primitives Conservation BracketChain.Splits

/-- All tokens of a mint together fit in a `u64`, in which the token program
keeps the supply. -/
def Supplied (s : Ledger) (mint : Pubkey) : Prop := ∀ S : Finset Pubkey, ∑ p ∈ S, tokensOf mint s p ≤ u64Max

variable {rt : Runtime} {s s' : Ledger} {key mint wallet p q : Pubkey} {amount : Nat} {u v : TokenAccount}

theorem tokensOf_eq (hv : s.token? p = some v) (mint_eq : v.mint = mint) : tokensOf mint s p = v.amount := by
  rw [tokensOf, hv, Option.elim_some, if_pos mint_eq]

theorem Supplied.fits (h : Supplied s mint) : SupplyFits s mint := by
  intro p q v u apart hv hu mint_eq mint_eq'
  have both := h {p, q}
  rwa [Finset.sum_pair apart, tokensOf_eq hv mint_eq, tokensOf_eq hu mint_eq'] at both

theorem Supplied.step (h : Supplied s mint) (b : Balanced (tokensOf mint s) (tokensOf mint s')) : Supplied s' mint :=
  b.bounded h

/-- A payment keeps the owners of all accounts. -/
theorem Credits.holds (credits : Credits key p amount s s') {mint wallet : Pubkey} (h : Holds s mint wallet q) :
    Holds s' mint wallet q := by
  obtain ⟨v, hv, hm, ho⟩ := h
  rw [Holds, credits q]
  split
  · subst q
    exact ⟨TokenAccount.plus v amount, by rw [hv, Option.map_some], hm, ho⟩
  · split
    · exact ⟨TokenAccount.minus v amount, by rw [hv, Option.map_some], hm, ho⟩
    · exact ⟨v, hv, hm, ho⟩

theorem payPlacements_tokens {items : List (Nat × Pubkey × Pubkey)} {m : Pubkey}
    (h : payPlacements key mint s items = .ok s') : Balanced (tokensOf m s) (tokensOf m s') := by
  refine each_related (R := fun s s' => Balanced (tokensOf m s) (tokensOf m s')) (fun s => .refl (tokensOf m s))
    (fun _ _ _ => Balanced.trans) ?_ items s s' h
  rintro s ⟨amount, wallet, account⟩ s' h
  simp only [ite_ok, bind_ok] at h
  rcases h with ⟨_, h⟩ | ⟨_, _, _, h⟩
  · obtain rfl := Except.ok.inj h
    exact .refl _
  · exact transfer_tokens h

/-- All places can be paid out of a vault that holds enough. -/
theorem payPlacements_succeed (items : List (Nat × Pubkey × Pubkey)) (hu : s.token? (.vault key) = some u)
    (mint_eq : u.mint = mint) (owner : u.owner = key ∧ u.frozen = false)
    (accounts : ∀ x ∈ items, Holds s mint x.2.1 x.2.2 ∧ x.2.2 ≠ .vault key)
    (enough : (items.map Prod.fst).sum ≤ u.amount) (supply : Supplied s mint) :
    ∃ s', payPlacements key mint s items = .ok s' ∧ Supplied s' mint ∧
      s'.token? (.vault key) = some (TokenAccount.minus u (items.map Prod.fst).sum) ∧
      ∀ m wallet q, Holds s m wallet q → Holds s' m wallet q := by
  induction items generalizing s u with
  | nil => exact ⟨s, rfl, supply, hu, fun _ _ _ h => h⟩
  | cons x items ih =>
      obtain ⟨amount, wallet, account⟩ := x
      obtain ⟨⟨⟨v, hv, hm, ho⟩, away⟩, accounts⟩ := List.forall_mem_cons.1 accounts
      rw [List.map_cons, List.sum_cons] at enough ⊢
      have room : v.amount + u.amount ≤ u64Max := supply.fits account _ v u away hv hu hm mint_eq
      obtain ⟨s₁, h₁, credits⟩ := payPlacement_succeeds hu mint_eq owner hv ⟨hm, ho⟩ away
        (Nat.le_of_add_right_le enough) (by omega)
      have vault₁ : s₁.token? (.vault key) = some (TokenAccount.minus u amount) := by
        rw [credits, if_neg (Ne.symm away), if_pos rfl, hu, Option.map_some]
      obtain ⟨s', h', supply', vault', kept⟩ := ih vault₁ mint_eq owner
        (fun x hx => ⟨Credits.holds credits (accounts x hx).1, (accounts x hx).2⟩)
        (by simp only [TokenAccount.minus]; omega) (supply.step (payPlacements_tokens h₁))
      refine ⟨s', ?_, supply', ?_, fun m wallet q h => kept m wallet q (Credits.holds credits h)⟩
      · obtain ⟨s₂, first, same⟩ := (each_cons_ok _ _ _ _ _).1 h₁
        obtain rfl := Except.ok.inj same
        exact (each_cons_ok _ _ _ _ _).2 ⟨s₂, first, h'⟩
      · rw [vault']
        simp only [TokenAccount.minus, Nat.sub_sub]

section Prizes

variable {t : Tournament} {m : MatchNode} {treasury winner loser pt : Pubkey} {placements payees : List Pubkey}

/-- The prizes and the fee can be paid whenever their accounts are right. -/
theorem prizes_succeed (valid : validateCustom t.payoutPreset = .ok ()) (hu : s.token? (.vault key) = some u)
    (mint_eq : u.mint = t.tokenMint) (owner : u.owner = key ∧ u.frozen = false)
    (count : placements.length = placementCount t.payoutPreset)
    (accounts : payees.length = placements.length) (ordered : checkPlacements m winner placements = .ok ())
    (prizes : ∀ x ∈ placements.zip payees, Holds s t.tokenMint x.1 x.2 ∧ x.2 ≠ .vault key)
    (fee : Holds s t.tokenMint treasury pt) (supply : Supplied s t.tokenMint) :
    ∃ s', distributePrizes s key t m treasury u (payees ++ [pt]) winner placements = .ok s' := by
  obtain ⟨funded, shape, whole⟩ := basisPoints_funded valid
  have within := protocolFee_le u.amount
  have fits : u.amount ≤ u64Max := by
    have alone := supply {.vault key}
    rwa [Finset.sum_singleton, tokensOf_eq hu mint_eq] at alone
  obtain ⟨amounts, split, exact_⟩ := splitPlacements_exact shape whole
    ((Nat.sub_le u.amount (protocolFee u.amount)).trans fits)
  have zipped : placements.zip (payees ++ [pt]) = placements.zip payees := by
    rw [← List.append_nil placements, List.zip_append accounts.symm, List.zip_nil_left, List.append_nil, List.append_nil]
  have length : amounts.length ≤ (placements.zip payees).length := by
    rw [List.length_zip, accounts, Nat.min_self, count, exact_.length]
  have total : ((amounts.zip (placements.zip payees)).map Prod.fst).sum = u.amount - protocolFee u.amount := by
    rw [List.map_fst_zip length, exact_.sum]
  obtain ⟨s₁, h₁, supply₁, vault₁, kept⟩ := payPlacements_succeed (amounts.zip (placements.zip payees)) hu mint_eq owner
    (fun x hx => prizes x.2 (List.of_mem_zip hx).2) (by omega) supply
  obtain ⟨v, hv, hm, ho⟩ := kept _ _ _ fee
  rw [total] at vault₁
  obtain ⟨s₂, h₂⟩ : ∃ s₂, payFee s₁ key t.tokenMint treasury (protocolFee u.amount) (some pt) = .ok s₂ := by
    apply payFee_succeeds vault₁ mint_eq owner hv ⟨hm, ho⟩
    · simp only [TokenAccount.minus]
      omega
    · intro away
      have room := supply₁.fits pt _ v _ away hv vault₁ hm mint_eq
      simp only [TokenAccount.minus] at room
      omega
  refine ⟨s₂, ?_⟩
  simp only [distributePrizes, bind_ok, require_ok, zipped]
  refine ⟨(), count, (), by simp [accounts, count], (), ordered, (), within, amounts, split, s₁, h₁, ?_⟩
  rw [← count, ← accounts, List.getElem?_append_right (Nat.le_refl _), Nat.sub_self]
  exact h₂

/-- Placements of the finalists only. -/
def podium (winner loser : Pubkey) : Nat → List Pubkey
  | 0 => []
  | 1 => [winner]
  | n + 2 => winner :: loser :: List.replicate n winner

theorem podium_length (winner loser : Pubkey) (n : Nat) : (podium winner loser n).length = n := by
  rcases n with _ | _ | n <;> simp [podium]

theorem podium_mem {n : Nat} {x : Pubkey} (mem : x ∈ podium winner loser n) : x = winner ∨ x = loser := by
  rcases n with _ | _ | n
  · cases mem
  · exact .inl (List.mem_singleton.1 mem)
  · simp only [podium, List.mem_cons] at mem
    rcases mem with rfl | rfl | mem
    · exact .inl rfl
    · exact .inr rfl
    · exact .inl (List.eq_of_mem_replicate mem)

theorem podium_ordered {n : Nat} (pos : 0 < n) (loses : loser = if winner = m.playerA then m.playerB else m.playerA) :
    checkPlacements m winner (podium winner loser n) = .ok () := by
  rcases n with _ | _ | n
  · cases pos
  · simp [podium, checkPlacements, bind, Except.bind, require]
  · simp [podium, checkPlacements, bind, Except.bind, require, loses]

/-- The finalists can be paid whenever they have token accounts. -/
theorem podium_succeeds {pw pl : Pubkey} (valid : validateCustom t.payoutPreset = .ok ())
    (hu : s.token? (.vault key) = some u) (mint_eq : u.mint = t.tokenMint) (owner : u.owner = key ∧ u.frozen = false)
    (pos : 0 < placementCount t.payoutPreset) (loses : loser = if winner = m.playerA then m.playerB else m.playerA)
    (prize : Holds s t.tokenMint winner pw ∧ pw ≠ .vault key) (second : Holds s t.tokenMint loser pl ∧ pl ≠ .vault key)
    (fee : Holds s t.tokenMint treasury pt) (supply : Supplied s t.tokenMint) :
    ∃ payees s', distributePrizes s key t m treasury u (payees ++ [pt]) winner
      (podium winner loser (placementCount t.payoutPreset)) = .ok s' := by
  let places := podium winner loser (placementCount t.payoutPreset)
  let account (x : Pubkey) : Pubkey := if x = winner then pw else pl
  refine ⟨places.map account, prizes_succeed valid hu mint_eq owner (podium_length ..) (List.length_map _)
    (podium_ordered pos loses) ?_ fee supply⟩
  intro x hx
  have paired : places.zip (places.map account) = places.map fun y => (y, account y) := by
    have both := List.zip_map' (f := id) (g := account) (l := places)
    rwa [List.map_id] at both
  rw [paired] at hx
  obtain ⟨y, hy, rfl⟩ := List.mem_map.1 hx
  rcases podium_mem hy with rfl | rfl
  · simpa only [account, if_pos] using prize
  · by_cases same : y = winner
    · simpa only [account, same, if_pos] using prize
    · simpa only [account, if_neg same] using second

end Prizes

end BracketChain.Payable
