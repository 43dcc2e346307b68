import BracketChain.Balance
import BracketChain.Payments
import BracketChain.Primitives

namespace BracketChain.Conservation

open Outcome Keys Records Accounts Program Layout Refinement Scripts Payments Primitives Balance

variable {rt : Runtime} {s m s' : Ledger} {pw : Powers} {mint : Pubkey}

/-- The tokens of a mint at an address. -/
def tokensOf (mint : Pubkey) (s : Ledger) (p : Pubkey) : Nat :=
  (s.token? p).elim 0 fun v => if v.mint = mint then v.amount else 0

section Primitives

theorem tokensOf_congr (same : s'.token? = s.token?) : Balanced (tokensOf mint s) (tokensOf mint s') :=
  .of_eq fun p => by rw [tokensOf, tokensOf, same]

theorem transfer_tokens {source destination authority : Pubkey} {amount : Nat}
    (h : s.tokenTransfer source destination authority amount = .ok s') :
    Balanced (tokensOf mint s) (tokensOf mint s') := by
  obtain ⟨u, v, hu, hv, _, enough, same, _, ⟨_, rfl⟩ | ⟨apart, _, rfl⟩⟩ := Ledger.tokenTransfer_ok.1 h
  · exact tokensOf_congr rfl
  · refine .pair apart ?_ fun r hp hq => ?_
    · simp only [tokensOf, setAccount_token, if_neg apart, if_pos, hu, hv, Account.asToken, Option.elim_some, same]
      split <;> omega
    · rw [tokensOf, setAccount_token, if_neg hq, setAccount_token, if_neg hp]
      rfl

theorem transfer_lamports {source destination authority : Pubkey} {amount : Nat}
    (h : s.tokenTransfer source destination authority amount = .ok s') : s'.lamports = s.lamports := by
  obtain ⟨_, _, _, _, _, _, _, _, ⟨_, rfl⟩ | ⟨_, _, rfl⟩⟩ := Ledger.tokenTransfer_ok.1 h <;> rfl

/-- No primitive makes or destroys tokens. -/
theorem primitive_tokens (h : Primitive pw s s') : Balanced (tokensOf mint s) (tokensOf mint s') := by
  cases h with
  | write p a before after =>
      refine .of_eq fun q => ?_
      rw [tokensOf, tokensOf, setAccount_token]
      split
      · rename_i same
        rw [same, before, after]
      · rfl
  | opens key mint' _ before =>
      refine .of_eq fun q => ?_
      rw [tokensOf, tokensOf, setAccount_token]
      split
      · rename_i same
        rw [same, before]
        simp [Account.asToken]
      · rfl
  | fund payer p amount _ funded => exact tokensOf_congr (funext (fund_keeps funded))
  | spend source destination spender amount _ paid => exact transfer_tokens paid
  | pay key destination amount _ paid => exact transfer_tokens paid
  | close key p dest _ _ _ empty =>
      refine .of_eq fun q => ?_
      rw [tokensOf, tokensOf, drain_token]
      split
      · rename_i same
        rw [same]
        cases hv : s.token? p with
        | none => rfl
        | some v => simp [empty v hv]
      · rfl

/-- No primitive makes or destroys lamports. -/
theorem primitive_lamports (h : Primitive pw s s') : Balanced s.lamports s'.lamports := by
  cases h with
  | write | opens => exact .refl _
  | fund payer p amount _ funded =>
      simp only [Ledger.transferLamports, bind_ok, require_ok, pure_ok] at funded
      obtain ⟨_, _, _, enough, rfl⟩ := funded
      by_cases apart : payer = p
      · subst apart
        refine .of_eq fun q => ?_
        by_cases here : q = payer
        · subst here
          simp [Nat.sub_add_cancel enough]
        · simp [Function.update_of_ne here]
      · simpa [Function.update_of_ne (Ne.symm apart)] using Balanced.move apart enough
  | spend source destination spender amount _ paid => exact .of_eq (congrFun (transfer_lamports paid))
  | pay key destination amount _ paid => exact .of_eq (congrFun (transfer_lamports paid))
  | close key p dest _ _ apart =>
      refine .pair apart ?_ fun r hp hq => ?_
      · simp [Ledger.drainAccount, Function.update_of_ne (Ne.symm apart), Nat.add_comm]
      · simp [Ledger.drainAccount, Function.update_of_ne hp, Function.update_of_ne hq]

end Primitives

/-- No call makes or destroys tokens or lamports. -/
theorem call_balanced {ix : Instruction} (wf : Wellformed s) (h : ix.run rt s = .ok s') :
    (∀ mint, Balanced (tokensOf mint s) (tokensOf mint s')) ∧ Balanced s.lamports s'.lamports := by
  have asks := call_asks wf h
  exact ⟨fun mint => .chain (tokensOf mint) (fun _ _ => primitive_tokens) asks,
    .chain Ledger.lamports (fun _ _ => primitive_lamports) asks⟩

/-- A quantity that accounts hold. -/
abbrev Measure := Ledger → Pubkey → Nat

/-- What a step of the surroundings leaves. -/
def Outside.after (e : Outside) (s : Ledger) : Ledger := (e.run s).toOption.getD s

/-- What a step that is no call adds at an address. -/
def brought (value : Measure) : Ledger × Action → Pubkey → Nat
  | (s, .outside e), p => value (Outside.after e s) p - value s p
  | (_, .call _), _ => 0

/-- What a step that is no call takes from an address. -/
def taken (value : Measure) : Ledger × Action → Pubkey → Nat
  | (s, .outside e), p => value s p - value (Outside.after e s) p
  | (_, .call _), _ => 0

/-- The sum over a history. -/
def total (flow : Ledger × Action → Pubkey → Nat) (past : History) (p : Pubkey) : Nat :=
  (past.map fun e => flow e p).sum

theorem total_snoc (flow : Ledger × Action → Pubkey → Nat) (past : History) (e : Ledger × Action) (p : Pubkey) :
    total flow (past ++ [e]) p = total flow past p + flow e p := by
  simp [total]

/-- Nothing is made or destroyed between two states, what the surroundings
bring and take apart. -/
def Conserved (value : Measure) (past : History) (s s' : Ledger) : Prop :=
  Balanced (fun p => value s p + total (brought value) past p) fun p => value s' p + total (taken value) past p

theorem step_metered (value : Measure) {b : Action} (calls : ∀ ix, b = .call ix → Balanced (value s) (value s'))
    (step : Step rt s b s') :
    Balanced (fun p => value s p + brought value (s, b) p) fun p => value s' p + taken value (s, b) p := by
  cases b with
  | call ix => exact (calls ix rfl).add 0
  | outside e =>
      have after : Outside.after e s = s' := by
        have ran : e.run s = .ok s' := outside_ran step
        simp [Outside.after, ran, Except.toOption]
      refine .of_eq fun p => ?_
      simp only [brought, taken, after]
      omega

theorem run_conserved {value : Measure} {past : History} (wf : Wellformed s)
    (calls : ∀ {s s'} {ix : Instruction}, Wellformed s → ix.run rt s = .ok s' → Balanced (value s) (value s'))
    (run : Run rt s past s') : Conserved value past s s' := by
  refine run.invariant (P := fun past s' => Conserved value past s s') (.refl _) ?_
  intro past m b s' run ih step
  have metered := step_metered value (fun ix own => ?_) step
  · simpa only [Conserved, total_snoc] using ih.metered metered
  · subst own
    obtain ⟨_, _, h⟩ := call_ran step
    exact calls (run_wellformed wf run) h

/-- A bound on all sums lasts for as long as nothing is brought from outside. -/
theorem Conserved.bounded {value : Measure} {past : History} {most : ℕ} (conserved : Conserved value past s s')
    (nothing : ∀ e ∈ past, ∀ p, brought value e p = 0) (bound : ∀ S : Finset Pubkey, ∑ p ∈ S, value s p ≤ most)
    (S : Finset Pubkey) : ∑ p ∈ S, value s' p ≤ most := by
  have none_ (p : Pubkey) : total (brought value) past p = 0 := by
    apply List.sum_eq_zero
    intro k hk
    obtain ⟨e, he, rfl⟩ := List.mem_map.1 hk
    exact nothing e he p
  simp only [Conserved, none_, Nat.add_zero] at conserved
  calc ∑ p ∈ S, value s' p ≤ ∑ p ∈ S, (value s' p + total (taken value) past p) :=
        Finset.sum_le_sum fun p _ => Nat.le_add_right _ _
    _ ≤ most := Balanced.bounded conserved bound S

/-- The sample tournament from the first call to its end. -/
def sampleScript : List Action := [sampleInit, .call (.createTournament sampleTournament)] ++ concededFinal

/-- Over every run of calls and of steps of the surroundings, in any order, the
tokens of every mint but the native one and the lamports balance. -/
theorem supply_conserved {past : History} (reachable : Reachable rt s) (run : Run rt s past s') :
    (∀ mint, mint ≠ nativeMint → Conserved (tokensOf mint) past s s') ∧ Conserved Ledger.lamports past s s' := by
  have wf := reachable_wellformed reachable
  exact ⟨fun mint _ => run_conserved wf (fun wf h => (call_balanced wf h).1 mint) run,
    run_conserved wf (fun wf h => (call_balanced wf h).2) run⟩

theorem concededFinal_conserved :
    (∀ mint, mint ≠ nativeMint → Conserved (tokensOf mint) (log sampleRuntime sampleGenesis sampleScript) sampleGenesis
      (after sampleRuntime sampleGenesis sampleScript)) ∧
    Conserved Ledger.lamports (log sampleRuntime sampleGenesis sampleScript) sampleGenesis
      (after sampleRuntime sampleGenesis sampleScript) :=
  supply_conserved (script_reachable sampleGenesis_genesis []) (script_run sampleGenesis sampleScript)

end BracketChain.Conservation
