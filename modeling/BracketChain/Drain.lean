import BracketChain.FinalizeEffects

namespace BracketChain.Drain

open Outcome Keys Records Accounts Payout Settlement Layout View FinalizeEffects

/-- Token transfers out of the vault: the log grows by them, and unless one of
them goes back into the vault, the vault holds less by their amounts. -/
structure Moves (key : Pubkey) (s s' : Ledger) (moves : List Transfer) : Prop where
  logged : s'.transfers = s.transfers ++ moves
  owners : ∀ p d', s'.token? p = some d' → ∃ d, s.token? p = some d ∧ d.owner = d'.owner
  vault : ∀ u, s.token? (.vault key) = some u → ∃ u', s'.token? (.vault key) = some u' ∧
    ((∀ x ∈ moves, x.destination ≠ .vault key) → u'.amount + (moves.map Transfer.amount).sum = u.amount)
  owned : ∀ x ∈ moves, ∃ d, s.token? x.destination = some d ∧ d.owner = x.recipient

variable {s m s' : Ledger} {key mint p wallet : Pubkey} {amount : Nat} {xs ys : List Transfer}

theorem Moves.none (key : Pubkey) (s : Ledger) : Moves key s s [] := by
  refine ⟨by simp, fun _ d h => ⟨d, h, rfl⟩, fun u hu => ⟨u, hu, ?_⟩, by simp⟩
  intro _
  simp

theorem Moves.append (first : Moves key s m xs) (second : Moves key m s' ys) : Moves key s s' (xs ++ ys) := by
  refine ⟨?_, ?_, ?_, ?_⟩
  · rw [second.logged, first.logged, List.append_assoc]
  · intro p d'' h
    obtain ⟨d', hd', same⟩ := second.owners p d'' h
    obtain ⟨d, hd, same'⟩ := first.owners p d' hd'
    exact ⟨d, hd, same'.trans same⟩
  · intro u hu
    obtain ⟨u', hu', taken⟩ := first.vault u hu
    obtain ⟨u'', hu'', taken'⟩ := second.vault u' hu'
    refine ⟨u'', hu'', fun away => ?_⟩
    have h := taken fun x hx => away x (List.mem_append_left _ hx)
    have h' := taken' fun x hx => away x (List.mem_append_right _ hx)
    rw [List.map_append, List.sum_append]
    omega
  · intro x hx
    rcases List.mem_append.1 hx with hx | hx
    · exact first.owned x hx
    · obtain ⟨d', hd', ho⟩ := second.owned x hx
      obtain ⟨d, hd, same⟩ := first.owners _ d' hd'
      exact ⟨d, hd, same.trans ho⟩

theorem set_token (s : Ledger) (p q : Pubkey) (v : TokenAccount) :
    (s.setAccount p (.token v)).token? q = if q = p then some v else s.token? q := by
  rw [Ledger.token?, Ledger.setAccount_accounts]
  split <;> rfl

/-- One payout: the account is checked to be the wallet's. -/
theorem pay_moves (checked : s.validateTokenAccount p wallet mint = .ok ())
    (h : s.tokenTransfer (.vault key) p key amount = .ok s') :
    Moves key s s' [⟨.vault key, p, wallet, amount⟩] := by
  obtain ⟨d, hd, _, rfl⟩ := Ledger.validateTokenAccount_ok.1 checked
  obtain ⟨u, b, hu, hb, _, enough, _, _, h⟩ := Ledger.tokenTransfer_ok.1 h
  obtain rfl := Option.some.inj (hd.symm.trans hb)
  have owned : ∀ x ∈ [(⟨.vault key, p, d.owner, amount⟩ : Transfer)],
      ∃ d', s.token? x.destination = some d' ∧ d'.owner = x.recipient := by
    simpa using ⟨d, hd, rfl⟩
  rcases h with ⟨rfl, rfl⟩ | ⟨apart, _, rfl⟩
  · refine ⟨rfl, fun _ d h => ⟨d, h, rfl⟩, fun u hu => ⟨u, hu, fun away => ?_⟩, owned⟩
    exact absurd rfl (away _ List.mem_cons_self)
  · refine ⟨rfl, ?_, ?_, owned⟩
    · intro q d' h
      rw [set_token] at h
      split at h
      · obtain rfl := Option.some.inj h
        rename_i hq
        exact ⟨d, hq ▸ hd, rfl⟩
      · rw [set_token] at h
        split at h
        · obtain rfl := Option.some.inj h
          rename_i hq
          exact ⟨u, hq ▸ hu, rfl⟩
        · exact ⟨d', h, rfl⟩
    · intro u' hu'
      obtain rfl := Option.some.inj (hu.symm.trans hu')
      refine ⟨{ u with amount := u.amount - amount }, ?_, fun _ => ?_⟩
      · rw [set_token, if_neg apart, set_token, if_pos rfl]
      · simp only [List.map_cons, List.map_nil, List.sum_singleton]
        omega

/-- The transfers of the placements, one for each share that is not zero. -/
def prizes (key : Pubkey) (items : List (Nat × Pubkey × Pubkey)) : List Transfer :=
  (items.filter fun i => i.1 ≠ 0).map fun i => ⟨.vault key, i.2.2, i.2.1, i.1⟩

/-- The transfer of the fee, unless it is zero. -/
def feeMoves (key treasury : Pubkey) (fee : Nat) (account : Option Pubkey) : List Transfer :=
  if fee = 0 then [] else account.toList.map fun p => ⟨.vault key, p, treasury, fee⟩

theorem payPlacements_moves {items : List (Nat × Pubkey × Pubkey)} (h : payPlacements key mint s items = .ok s') :
    Moves key s s' (prizes key items) := by
  unfold payPlacements at h
  induction items generalizing s with
  | nil =>
      obtain rfl : s = s' := by simpa [each] using h
      exact .none key s
  | cons item items ih =>
      obtain ⟨amount, wallet, account⟩ := item
      obtain ⟨m, hm, rest⟩ := (each_cons_ok _ _ _ _ _).1 h
      have later := ih rest
      simp only [ite_ok, bind_ok] at hm
      rcases hm with ⟨zero, hm⟩ | ⟨nonzero, _, checked, hm⟩
      · obtain rfl : s = m := by simpa using hm
        simpa [prizes, zero] using later
      · have both := (pay_moves checked hm).append later
        simpa [prizes, nonzero] using both

theorem payFee_moves {treasury : Pubkey} {fee : Nat} {account : Option Pubkey}
    (h : payFee s key mint treasury fee account = .ok s') : Moves key s s' (feeMoves key treasury fee account) := by
  simp only [payFee, ite_ok, bind_ok, orThrow_ok] at h
  rcases h with ⟨zero, h⟩ | ⟨nonzero, p, rfl, _, checked, h⟩
  · obtain rfl : s = s' := by simpa using h
    simpa [feeMoves, zero] using Moves.none key s
  · simpa [feeMoves, nonzero] using pay_moves checked h

theorem lowerSum_ok {lower : List Nat} {acc sum : Nat}
    (h : each (fun acc a => orThrow (checkedAdd u64Max acc a) Error.arithmeticOverflow) acc lower = .ok sum) :
    sum = acc + lower.sum := by
  induction lower generalizing acc with
  | nil =>
      obtain rfl : acc = sum := by simpa [each] using h
      simp
  | cons a lower ih =>
      obtain ⟨next, hnext, rest⟩ := (each_cons_ok _ _ _ _ _).1 h
      obtain ⟨_, rfl⟩ := (checkedAdd_eq_some _ _ _ _).1 ((orThrow_ok _ _ _).1 hnext)
      rw [ih rest, List.sum_cons, Nat.add_assoc]

/-- The shares add up to the whole. -/
theorem splitPlacements_ok {net count : Nat} {table amounts : List Nat}
    (h : splitPlacements net table count = .ok amounts) :
    amounts.length = min count table.length ∧ (amounts ≠ [] → amounts.sum = net) := by
  have shares : ((table.take count).map fun bps => net * bps / bpsDenominator % (u64Max + 1)).length =
      min count table.length := by simp
  unfold splitPlacements at h
  split at h
  · rename_i empty
    obtain rfl : [] = amounts := by simpa using h
    rw [empty] at shares
    exact ⟨shares, fun some_ => absurd rfl some_⟩
  · rename_i first lower whole
    simp only [bind_ok, require_ok, pure_ok] at h
    obtain ⟨sum, hsum, _, fits, rfl⟩ := h
    rw [whole] at shares
    refine ⟨shares, fun _ => ?_⟩
    rw [List.sum_cons]
    have total := lowerSum_ok hsum
    omega

theorem placementCount_le (preset : PayoutPreset) : placementCount preset ≤ (basisPoints preset).toList.length :=
  List.length_filter_le _ _

theorem checkPlacements_ok {node : MatchNode} {winner : Pubkey} {placements : List Pubkey} {r : Unit}
    (h : checkPlacements node winner placements = .ok r) : placements[0]? = some winner ∧
      ∀ w, placements[1]? = some w → w = if winner = node.playerA then node.playerB else node.playerA := by
  cases placements with
  | nil => cases h
  | cons first rest =>
      simp only [checkPlacements, bind_ok, require_ok] at h
      obtain ⟨_, rfl, h⟩ := h
      refine ⟨rfl, fun w hw => ?_⟩
      cases rest with
      | nil => cases hw
      | cons second rest =>
          obtain rfl : second = w := by simpa using hw
          exact (require_ok _ _ _).1 h

/-- A payout of the whole vault: a share for each placement, in order, and the
fee. -/
structure Shares (key treasury : Pubkey) (pool : Nat) (placements remaining : List Pubkey) (moves : List Transfer) :
    Prop where
  split : ∃ (amounts : List Nat) (fee : Nat), amounts.length = placements.length ∧ amounts.sum + fee = pool ∧
    moves = prizes key (amounts.zip (placements.zip remaining)) ++
      feeMoves key treasury fee remaining[placements.length]?
  whole : (moves.map Transfer.amount).sum = pool
  listed : ∀ x ∈ moves, x.source = .vault key ∧ x.destination ∈ remaining

theorem prizes_sum (items : List (Nat × Pubkey × Pubkey)) :
    ((prizes key items).map Transfer.amount).sum = (items.map Prod.fst).sum := by
  induction items with
  | nil => rfl
  | cons item items ih =>
      by_cases zero : item.1 = 0
      · simpa [prizes, zero] using ih
      · simpa [prizes, zero] using ih

theorem feeMoves_sum {treasury : Pubkey} {fee : Nat} :
    ((feeMoves key treasury fee (some p)).map Transfer.amount).sum = fee := by
  by_cases zero : fee = 0 <;> simp [feeMoves, zero]

theorem shares_of_split {treasury : Pubkey} {pool fee : Nat} {amounts : List Nat} {placements remaining : List Pubkey}
    (length : amounts.length = placements.length) (accounts : remaining.length = placements.length + 1)
    (sum : amounts.sum + fee = pool) : Shares key treasury pool placements remaining
      (prizes key (amounts.zip (placements.zip remaining)) ++
        feeMoves key treasury fee remaining[placements.length]?) := by
  have last : remaining[placements.length]? = some remaining[placements.length] :=
    List.getElem?_eq_getElem (by omega)
  have firsts : (amounts.zip (placements.zip remaining)).map Prod.fst = amounts := by
    apply List.map_fst_zip
    rw [List.length_zip]
    omega
  refine ⟨⟨amounts, fee, length, sum, rfl⟩, ?_, ?_⟩
  · rw [List.map_append, List.sum_append, prizes_sum, firsts, last, feeMoves_sum, sum]
  · intro x hx
    rcases List.mem_append.1 hx with hx | hx
    · obtain ⟨⟨amount, wallet, account⟩, item, rfl⟩ := List.mem_map.1 hx
      have zipped := (List.of_mem_zip (List.mem_of_mem_filter item)).2
      exact ⟨rfl, (List.of_mem_zip zipped).2⟩
    · rw [last, feeMoves] at hx
      split at hx
      · cases hx
      · obtain rfl := List.mem_singleton.1 hx
        exact ⟨rfl, List.getElem_mem _⟩

theorem distributePrizes_moves {t : Tournament} {node : MatchNode} {treasury winner : Pubkey} {vault : TokenAccount}
    {remaining placements : List Pubkey}
    (h : distributePrizes s key t node treasury vault remaining winner placements = .ok s') :
    placements.length = placementCount t.payoutPreset ∧ placements[0]? = some winner ∧
      (∀ w, placements[1]? = some w → w = if winner = node.playerA then node.playerB else node.playerA) ∧
      ∃ moves, Shares key treasury vault.amount placements remaining moves ∧ Moves key s s' moves := by
  simp only [distributePrizes, bind_ok, require_ok] at h
  obtain ⟨_, count, _, accounts, _, checked, _, fits, amounts, split, m, paid, h⟩ := h
  obtain ⟨first, second⟩ := checkPlacements_ok checked
  obtain ⟨length, sum⟩ := splitPlacements_ok split
  rw [Nat.min_eq_left (placementCount_le _), ← count] at length
  rw [← count] at accounts h
  have some_ : amounts ≠ [] := by
    rintro rfl
    have none_ : placements = [] := List.length_eq_zero_iff.1 length.symm
    simp [none_] at first
  have whole : amounts.sum + protocolFee vault.amount = vault.amount := by
    rw [sum some_]
    omega
  exact ⟨count, first, second, _, shares_of_split length accounts whole,
    (payPlacements_moves paid).append (payFee_moves h)⟩

end BracketChain.Drain
