import BracketChain.Conservation

namespace BracketChain.Authority

open Outcome Keys Records Accounts Registration Program Layout Confinement Refinement Scripts Payments Primitives Conservation

variable {rt : Runtime} {s m s' : Ledger} {pw : Powers} {p mint owner : Pubkey} {lost more : Nat}

/-- The tokens of an account lose at most so much, and stay with their owner. -/
def Keeps (p mint owner : Pubkey) (lost : Nat) (s s' : Ledger) : Prop :=
  ∀ frozen amount, s.token? p = some ⟨mint, owner, amount, frozen⟩ →
    ∃ amount', s'.token? p = some ⟨mint, owner, amount', frozen⟩ ∧ amount ≤ amount' + lost

theorem Keeps.of_eq (same : s'.token? p = s.token? p) : Keeps p mint owner 0 s s' :=
  fun _ amount held => ⟨amount, same.trans held, Nat.le_refl amount⟩

theorem Keeps.trans (h : Keeps p mint owner lost s m) (h' : Keeps p mint owner more m s') :
    Keeps p mint owner (lost + more) s s' := by
  intro frozen amount held
  obtain ⟨amount₁, held₁, le⟩ := h frozen amount held
  obtain ⟨amount₂, held₂, le'⟩ := h' frozen amount₁ held₁
  exact ⟨amount₂, held₂, by omega⟩

/-- A transfer takes from the account that its owner names as the source. -/
theorem transfer_keeps {source destination authority : Pubkey} {amount : Nat}
    (h : s.tokenTransfer source destination authority amount = .ok s') :
    Keeps p mint owner (if source = p ∧ authority = owner then amount else 0) s s' := by
  intro frozen before held
  obtain ⟨u, v, hu, hv, _, enough, _, owns, ⟨_, rfl⟩ | ⟨apart, _, rfl⟩⟩ := Ledger.tokenTransfer_ok.1 h
  · exact ⟨before, held, Nat.le_add_right before _⟩
  · by_cases into : p = destination
    · subst into
      obtain rfl := Option.some.inj (held.symm.trans hv)
      exact ⟨before + amount, by rw [setAccount_token, if_pos rfl]; rfl, by omega⟩
    · by_cases from_ : p = source
      · subst from_
        obtain rfl := Option.some.inj (held.symm.trans hu)
        refine ⟨before - amount, by rw [setAccount_token, if_neg apart, setAccount_token, if_pos rfl]; rfl, ?_⟩
        rw [if_pos ⟨rfl, owns.symm⟩]
        omega
      · refine ⟨before, ?_, Nat.le_add_right before _⟩
        rw [setAccount_token, if_neg into, setAccount_token, if_neg from_]
        exact held

/-- A call that spends no tokens takes none from accounts outside the
tournaments. -/
theorem primitive_keeps (apart : p.home = none) (unspent : pw.spender = none) (h : Primitive pw s s') :
    Keeps p mint owner 0 s s' := by
  cases h with
  | write q a before after =>
      intro frozen amount held
      have ne : p ≠ q := by rintro rfl; cases held.symm.trans before
      exact Keeps.of_eq (by rw [setAccount_token, if_neg ne]) frozen amount held
  | opens key mint' =>
      refine .of_eq ?_
      rw [setAccount_token, if_neg]
      rintro rfl
      cases apart
  | fund payer q amount _ funded => exact .of_eq (fund_keeps funded p)
  | spend source destination spender amount power => cases unspent.symm.trans power
  | pay key destination amount _ paid =>
      have ne : Pubkey.vault key ≠ p := by rintro rfl; cases apart
      have kept : Keeps p mint owner _ s s' := transfer_keeps paid
      rwa [if_neg fun h => ne h.1] at kept
  | close key q dest _ home =>
      refine .of_eq ?_
      rw [drain_token, if_neg]
      rintro rfl
      cases home.symm.trans apart

theorem asks_keeps (apart : p.home = none) (unspent : pw.spender = none) (h : Asks pw s s') :
    Keeps p mint owner 0 s s' := by
  induction h with
  | refl => exact .of_eq rfl
  | tail _ last ih => exact ih.trans (primitive_keeps apart unspent last)

/-- What a step charges an account on the word of its owner: the deposit of a
tournament it creates, the entry fee of one it joins. -/
def charged (owner : Pubkey) : Ledger × Action → Pubkey → Nat
  | (_, .call (.createTournament a)), p =>
      if a.organizerTokenAccount = some p ∧ a.organizer = owner then a.organizerDeposit else 0
  | (s, .call (.joinTournament a)), p =>
      if a.playerTokenAccount = p ∧ a.player = owner then (s.tournament? a.tournament).elim 0 (·.entryFee) else 0
  | _, _ => 0

theorem create_keeps {a : CreateTournament} (apart : p.home = none) (h : createTournament rt a s = .ok s') :
    Keeps p mint owner (charged owner (s, .call (.createTournament a)) p) s s' := by
  obtain ⟨m, opened, paid⟩ := createTournament_asks h
  have before : Keeps p mint owner 0 s m :=
    asks_keeps apart rfl (opened { payer := some a.organizer, opens := some a.key } rfl rfl)
  rw [← Nat.zero_add (charged _ _ _)]
  refine before.trans ?_
  rcases paid with rfl | ⟨source, named, paid⟩
  · intro frozen amount held
    exact ⟨amount, held, Nat.le_add_right amount _⟩
  · rw [charged, named]
    simpa only [Option.some.injEq] using transfer_keeps paid

theorem join_keeps {a : JoinTournament} (wf : Wellformed s) (apart : p.home = none)
    (h : joinTournament rt a s = .ok s') :
    Keeps p mint owner (charged owner (s, .call (.joinTournament a)) p) s s' := by
  obtain ⟨t, m₁, m₂, ht, entered, paid, counted⟩ := joinTournament_asks wf h
  have before : Keeps p mint owner 0 s m₁ := asks_keeps apart rfl (entered { payer := some a.player } rfl)
  have after : Keeps p mint owner 0 m₂ s' := asks_keeps apart rfl (counted {})
  rw [← Nat.zero_add (charged _ _ _), charged, ht]
  exact before.trans ((transfer_keeps paid).trans after)

/-- A call takes from an account what it charges it, at most. -/
theorem call_keeps {ix : Instruction} (wf : Wellformed s) (apart : p.home = none) (h : ix.run rt s = .ok s') :
    Keeps p mint owner (charged owner (s, .call ix) p) s s' := by
  cases ix with
  | createTournament a => exact create_keeps apart h
  | joinTournament a => exact join_keeps wf apart h
  | _ => exact asks_keeps apart rfl (call_asks wf h)

theorem outside_keeps {e : Outside} (left : ∀ n a, e = .account n a → p ≠ .key n) (h : e.run s = .ok s') :
    Keeps p mint owner 0 s s' := by
  cases e with
  | clock | slotHashes | sendLamports | spendLamports =>
      obtain rfl := Except.ok.inj h
      exact .of_eq rfl
  | account n a =>
      simp only [Outside.run, bind_ok, pure_ok] at h
      obtain ⟨_, _, rfl⟩ := h
      exact .of_eq (by rw [setAccount_token, if_neg (left n a rfl)])
  | sendTokens q amount =>
      simp only [Outside.run, bind_ok, pure_ok, Ledger.loadToken_ok] at h
      obtain ⟨v, hv, _, _, rfl⟩ := h
      intro frozen before held
      by_cases here : p = q
      · subst here
        obtain rfl := Option.some.inj (held.symm.trans hv)
        exact ⟨before + amount, by rw [setAccount_token, if_pos rfl]; rfl, by omega⟩
      · exact Keeps.of_eq (by rw [setAccount_token, if_neg here]) frozen before held

/-- Another program changes the account. -/
def rewrites (n : Nat) : Action → Bool
  | .outside (.account k _) => k = n
  | .outside _ | .call _ => false

/-- Over every run, the tokens of an account that no other program changes stay
with their owner, and lose at most the deposits and fees that the owner signed
for. -/
theorem debits_signed {past : History} {n : Nat} (reachable : Reachable rt s) (run : Run rt s past s')
    (left : ∀ e ∈ past, rewrites n e.2 = false) :
    Keeps (.key n) mint owner (total (charged owner) past (.key n)) s s' := by
  have wf := reachable_wellformed reachable
  induction run with
  | nil => exact .of_eq rfl
  | @snoc past m b s' run step ih =>
      rw [total_snoc]
      refine (ih fun e he => left e (List.mem_append_left _ he)).trans ?_
      cases b with
      | call ix =>
          obtain ⟨_, _, h⟩ := call_ran step
          exact call_keeps (run_wellformed wf run) rfl h
      | outside e =>
          refine outside_keeps (fun k a own same => ?_) (outside_ran step)
          subst own
          obtain rfl := Pubkey.key.inj same
          simpa [rewrites] using left _ List.mem_concat_self

/-- Wallet 2 pays its entry fee, and no more. -/
theorem concededFinal_signed : ∃ amount,
    (after sampleRuntime sampleGenesis sampleScript).token? (.key 11) = some ⟨.key 100, .key 2, amount, false⟩ ∧
    1000 ≤ amount + 50 := by
  have left : ((log sampleRuntime sampleGenesis sampleScript).all fun e => !rewrites 11 e.2) = true := by decide
  have fee : total (charged (.key 2)) (log sampleRuntime sampleGenesis sampleScript) (.key 11) = 50 := by decide
  rw [← fee]
  exact debits_signed (script_reachable sampleGenesis_genesis []) (script_run sampleGenesis sampleScript)
    (fun e he => by simpa using List.all_eq_true.1 left e he) false 1000 rfl

section Lamports

/-- A token account of the native mint, whose tokens are lamports. -/
def Wrapped (s : Ledger) (p : Pubkey) : Prop :=
  (s.token? p).map TokenAccount.mint = some nativeMint

/-- Who takes lamports from an address: the payer of a call, a call that closes
accounts of its tournament, any call while the address holds wrapped SOL, or the
owner. -/
def Draws (p : Pubkey) : Ledger × Action → Prop
  | (s, .call ix) => (Instruction.powers ix).payer = some p ∨
      (p.home ≠ none ∧ (Instruction.powers ix).closes = p.home) ∨ Wrapped s p
  | (_, .outside (.spendLamports n _)) => p = .key n
  | (_, .outside _) => False

instance (s : Ledger) (p : Pubkey) : Decidable (Wrapped s p) := inferInstanceAs (Decidable (_ = _))

instance (p : Pubkey) : (e : Ledger × Action) → Decidable (Draws p e)
  | (_, .call _) => inferInstanceAs (Decidable (_ ∨ _))
  | (_, .outside (.spendLamports _ _)) => inferInstanceAs (Decidable (_ = _))
  | (_, .outside (.clock _)) | (_, .outside (.slotHashes _)) | (_, .outside (.account _ _))
  | (_, .outside (.sendTokens _ _)) | (_, .outside (.sendLamports _ _)) => instDecidableFalse

theorem primitive_lamports_kept (unpaid : pw.payer ≠ some p)
    (open_ : ∀ key, pw.closes = some key → p.home ≠ some key) (h : Primitive pw s s') : s.lamports p ≤ s'.lamports p := by
  cases h with
  | write | opens => exact Nat.le_refl _
  | fund payer q amount power funded =>
      have ne : p ≠ payer := by rintro rfl; exact unpaid power
      simp only [Ledger.transferLamports, bind_ok, require_ok, pure_ok] at funded
      obtain ⟨_, _, _, _, rfl⟩ := funded
      simp only [Function.update_apply, if_neg ne]
      split
      · rename_i here
        subst here
        rw [if_neg ne]
        exact Nat.le_add_right _ _
      · exact Nat.le_refl _
  | spend source destination spender amount _ paid => rw [transfer_lamports paid]
  | pay key destination amount _ paid => rw [transfer_lamports paid]
  | close key q dest power home =>
      have ne : p ≠ q := by rintro rfl; exact open_ key power home
      rw [Reclaim.drain_lamports, if_neg ne]
      split
      · rename_i here
        subst here
        exact Nat.le_add_right _ _
      · exact Nat.le_refl _

theorem asks_lamports_kept (unpaid : pw.payer ≠ some p) (open_ : ∀ key, pw.closes = some key → p.home ≠ some key)
    (h : Asks pw s s') : s.lamports p ≤ s'.lamports p := by
  induction h with
  | refl => exact Nat.le_refl _
  | tail _ last ih => exact ih.trans (primitive_lamports_kept unpaid open_ last)

theorem outside_lamports_kept {e : Outside} (undrawn : ¬ Draws p (s, .outside e)) (h : e.run s = .ok s') :
    s.lamports p ≤ s'.lamports p := by
  cases e with
  | clock | slotHashes =>
      obtain rfl := Except.ok.inj h
      exact Nat.le_refl _
  | account n a =>
      simp only [Outside.run, bind_ok, pure_ok] at h
      obtain ⟨_, _, rfl⟩ := h
      exact Nat.le_refl _
  | sendTokens q amount =>
      simp only [Outside.run, bind_ok, pure_ok] at h
      obtain ⟨_, _, _, _, rfl⟩ := h
      exact Nat.le_refl _
  | sendLamports q amount =>
      obtain rfl := Except.ok.inj h
      simp only [Function.update_apply]
      split
      · rename_i here
        subst here
        exact Nat.le_add_right _ _
      · exact Nat.le_refl _
  | spendLamports n amount =>
      have ne : p ≠ .key n := undrawn
      obtain rfl := Except.ok.inj h
      simp only [Function.update_of_ne ne]
      exact Nat.le_refl _

/-- Over every run, an address that holds no wrapped SOL loses lamports only to
the calls it pays for, to the closing of its tournament, and to its own owner. -/
theorem lamports_kept {past : History} (reachable : Reachable rt s) (run : Run rt s past s')
    (idle : ∀ e ∈ past, ¬ Draws p e) : s.lamports p ≤ s'.lamports p := by
  have wf := reachable_wellformed reachable
  induction run with
  | nil => exact Nat.le_refl _
  | @snoc past m b s' run step ih =>
      refine (ih fun e he => idle e (List.mem_append_left _ he)).trans ?_
      have undrawn := idle (m, b) List.mem_concat_self
      cases b with
      | call ix =>
          obtain ⟨_, _, h⟩ := call_ran step
          rw [Draws, not_or, not_or] at undrawn
          obtain ⟨unpaid, open_, _⟩ := undrawn
          exact asks_lamports_kept unpaid (fun key power home => open_ ⟨by simp [home], power.trans home.symm⟩)
            (call_asks (run_wellformed wf run) h)
      | outside e => exact outside_lamports_kept undrawn (outside_ran step)

/-- The rent of the sample tournament stays with it. -/
theorem concededFinal_rented :
    (created sampleRuntime sampleTournament sampleBorn).lamports sampleTournament.key ≤
      (after sampleRuntime (created sampleRuntime sampleTournament sampleBorn) concededFinal).lamports
        sampleTournament.key := by
  have idle : ((log sampleRuntime (created sampleRuntime sampleTournament sampleBorn) concededFinal).all
      fun e => !decide (Draws sampleTournament.key e)) = true := by decide
  exact lamports_kept (reachable_run sampleBorn_reachable (script_run _ _)) (script_run _ concededFinal)
    fun e he => by simpa using List.all_eq_true.1 idle e he

end Lamports

end BracketChain.Authority
