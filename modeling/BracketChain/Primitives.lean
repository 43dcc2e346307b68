import BracketChain.Emissions
import BracketChain.Frames
import BracketChain.Reclaim

namespace BracketChain.Primitives

open Outcome Keys Records Accounts Payout Registration Start Settlement Envelope Refunds Program Layout Lifecycle
  RegistrationEffects FinalizeEffects RefundEffects Refinement Frames Emissions Reclaim

/-- What a call may ask of the runtime beyond the writing of accounts of the
program: who pays for rent, whose tokens are spent, which tournament's vault is
opened or pays, and which tournament's accounts are closed. -/
structure Powers where
  payer : Option Pubkey := none
  spender : Option Pubkey := none
  opens : Option Pubkey := none
  pays : Option Pubkey := none
  closes : Option Pubkey := none

/-- A step that the runtime takes for the program. Closed accounts hold no
tokens. -/
inductive Primitive (pw : Powers) : Ledger → Ledger → Prop
  | write {s : Ledger} (p : Pubkey) (a : Account) (before : s.token? p = none) (after : a.asToken = none) :
      Primitive pw s (s.setAccount p a)
  | opens {s : Ledger} (key mint : Pubkey) (power : pw.opens = some key) (before : s.token? (.vault key) = none) :
      Primitive pw s (s.setAccount (.vault key) (.token ⟨mint, key, 0, false⟩))
  | fund {s s' : Ledger} (payer p : Pubkey) (amount : Nat) (power : pw.payer = some payer)
      (funded : s.transferLamports payer p amount = .ok s') : Primitive pw s s'
  | spend {s s' : Ledger} (source destination spender : Pubkey) (amount : Nat) (power : pw.spender = some spender)
      (paid : s.tokenTransfer source destination spender amount = .ok s') : Primitive pw s s'
  | pay {s s' : Ledger} (key destination : Pubkey) (amount : Nat) (power : pw.pays = some key)
      (paid : s.tokenTransfer (.vault key) destination key amount = .ok s') : Primitive pw s s'
  | close {s : Ledger} (key p dest : Pubkey) (power : pw.closes = some key) (home : p.home = some key) (apart : p ≠ dest)
      (empty : ∀ v, s.token? p = some v → v.amount = 0) : Primitive pw s (s.drainAccount p dest)

/-- One primitive after the other. -/
abbrev Asks (pw : Powers) : Ledger → Ledger → Prop := Relation.ReflTransGen (Primitive pw)

/-- What each call may ask for. -/
def Instruction.powers : Instruction → Powers
  | .initializeProtocol a => { payer := some a.authority }
  | .createTournament a => { payer := some a.organizer, spender := some a.organizer, opens := some a.key }
  | .joinTournament a => { payer := some a.player, spender := some a.player }
  | .startTournament a => { payer := some a.organizer }
  | .reportResult a _ _ | .confirmResult a _ | .claimResult a _ | .forceClaimDisputed a _ | .resolveDispute a _ _
  | .settleFinal a _ => { pays := some a.tournament }
  | .cancelTournament a | .partialRefundChunk a => { pays := some a.tournament }
  | .closeTournament a => { closes := some a.tournament }
  | _ => {}

variable {rt : Runtime} {s m s' : Ledger} {pw : Powers} {key p : Pubkey}

theorem setAccount_token (s : Ledger) (p q : Pubkey) (a : Account) :
    (s.setAccount p a).token? q = if q = p then a.asToken else s.token? q := by
  rw [Ledger.token?, Ledger.setAccount_accounts]
  split <;> rfl

theorem transfer_plain {source destination authority q : Pubkey} {amount : Nat}
    (h : s.tokenTransfer source destination authority amount = .ok s') (none_ : s.token? q = none) :
    s'.token? q = none := by
  obtain ⟨u, v, hu, hv, _, _, _, _, ⟨_, rfl⟩ | ⟨_, _, rfl⟩⟩ := Ledger.tokenTransfer_ok.1 h
  · exact none_
  · have apart : q ≠ source := by rintro rfl; simp [none_] at hu
    have apart' : q ≠ destination := by rintro rfl; simp [none_] at hv
    rw [setAccount_token, if_neg apart', setAccount_token, if_neg apart]
    exact none_

theorem drain_token (s : Ledger) (p dest q : Pubkey) :
    (s.drainAccount p dest).token? q = if q = p then none else s.token? q := by
  simp only [Ledger.token?, Ledger.drainAccount, Function.update_apply]
  split <;> rfl

/-- Only a vault becomes a token account. -/
theorem Primitive.plain {q : Pubkey} (h : Primitive pw s s') (unheld : ∀ key, q ≠ .vault key)
    (none_ : s.token? q = none) : s'.token? q = none := by
  cases h with
  | write p a _ after =>
      rw [setAccount_token]
      split
      · exact after
      · exact none_
  | opens key =>
      rw [setAccount_token, if_neg (unheld key)]
      exact none_
  | fund payer p amount _ funded =>
      obtain ⟨_, rfl⟩ := Ledger.transferLamports_ok funded
      exact none_
  | spend source destination spender amount _ paid => exact transfer_plain paid none_
  | pay key destination amount _ paid => exact transfer_plain paid none_
  | close key p dest =>
      rw [drain_token]
      split
      · rfl
      · exact none_

theorem Asks.plain {q : Pubkey} (h : Asks pw s s') (unheld : ∀ key, q ≠ .vault key)
    (none_ : s.token? q = none) : s'.token? q = none := by
  induction h with
  | refl => exact none_
  | tail _ last ih => exact last.plain unheld ih

/-- One more account of the program is written. -/
theorem Asks.write {q : Pubkey} {a : Account} (h : Asks pw s m) (unheld : ∀ key, q ≠ .vault key)
    (none_ : s.token? q = none) (after : a.asToken = none) : Asks pw s (m.setAccount q a) :=
  h.tail (.write q a (h.plain unheld none_) after)

theorem unheld_of_isTournament (hk : key.isTournament = true) (k : Pubkey) : key ≠ .vault k :=
  View.ne_of_isTournament hk rfl

theorem record_plain {t : Tournament} (ht : s.tournament? p = some t) : s.token? p = none := by
  rw [Ledger.token?, Ledger.tournament?_eq_some.1 ht]
  rfl

theorem participant_plain {x : Participant} (hx : s.participant? p = some x) : s.token? p = none := by
  rw [Ledger.token?, Ledger.participant?_eq_some.1 hx]
  rfl

theorem node_plain {n : MatchNode} (hn : s.matchNode? p = some n) : s.token? p = none := by
  rw [Ledger.token?, Ledger.matchNode?_eq_some.1 hn]
  rfl

theorem system_plain (h : (s.accounts p).isSystem = true) : s.token? p = none := by
  rw [Ledger.token?, Ledger.isSystem_iff.1 h]
  rfl

/-- The addresses of participants hold no tokens. -/
theorem participant_unheld (wf : Wellformed s) (wallet : Pubkey) : s.token? (.participant key wallet) = none := by
  cases h : s.token? (.participant key wallet) with
  | none => rfl
  | some v =>
      obtain ⟨n, hn⟩ | ⟨hp, _⟩ := token_fits wf h
      · cases hn
      · cases hp

section Opening

variable {payer : Pubkey} {space : Nat} {a : Account}

theorem fund_keeps {amount : Nat} (h : s.transferLamports payer p amount = .ok s') (q : Pubkey) :
    s'.token? q = s.token? q := by
  obtain ⟨_, rfl⟩ := Ledger.transferLamports_ok h
  rfl

theorem initAccount_asks (power : pw.payer = some payer) (plain : a.asToken = none)
    (h : s.initAccount rt payer p space a = .ok s') : Asks pw s s' := by
  obtain ⟨system, m, rfl, ⟨_, rfl⟩ | funded⟩ := Ledger.initAccount_cases h
  · exact .single (.write p a (system_plain (Ledger.isSystem_iff.2 system)) plain)
  · exact (Relation.ReflTransGen.single (.fund payer p _ power funded)).tail
      (.write p a ((fund_keeps funded p).trans (system_plain (Ledger.isSystem_iff.2 system))) plain)

theorem createAccount_asks (power : pw.payer = some payer) (plain : a.asToken = none)
    (h : s.createAccount rt payer p space a = .ok s') : Asks pw s s' := by
  simp only [Ledger.createAccount, bind_ok, require_ok, pure_ok] at h
  obtain ⟨_, ⟨system, _⟩, m, funded, rfl⟩ := h
  exact (Relation.ReflTransGen.single (.fund payer p _ power funded)).tail
    (.write p a ((fund_keeps funded p).trans (system_plain system)) plain)

theorem initVault_asks {mint : Pubkey} (power : pw.payer = some payer) (opens : pw.opens = some key)
    (h : s.initAccount rt payer (.vault key) space (.token ⟨mint, key, 0, false⟩) = .ok s') : Asks pw s s' := by
  obtain ⟨system, m, rfl, ⟨_, rfl⟩ | funded⟩ := Ledger.initAccount_cases h
  · exact .single (.opens key mint opens (system_plain (Ledger.isSystem_iff.2 system)))
  · exact (Relation.ReflTransGen.single (.fund payer _ _ power funded)).tail
      (.opens key mint opens ((fund_keeps funded _).trans (system_plain (Ledger.isSystem_iff.2 system))))

/-- The accounts are opened first, then the deposit is paid. -/
theorem createTournament_asks {c : CreateTournament} (h : createTournament rt c s = .ok s') : ∃ m,
    (∀ pw : Powers, pw.payer = some c.organizer → pw.opens = some c.key → Asks pw s m) ∧ (s' = m ∨
      ∃ source, c.organizerTokenAccount = some source ∧
        m.tokenTransfer source (.vault c.key) c.organizer c.organizerDeposit = .ok s') := by
  simp only [createTournament, bind_ok] at h
  obtain ⟨_, _, _, _, s₁, h₁, m, h₂, _, _, _, _, h⟩ := h
  refine ⟨m, fun pw payer opens => (initAccount_asks payer rfl h₁).trans (initVault_asks payer opens h₂), ?_⟩
  simp only [payDeposit, ite_ok, bind_ok, orThrow_ok] at h
  rcases h with ⟨_, source, named, paid⟩ | ⟨_, h⟩
  · exact .inr ⟨source, named, paid⟩
  · exact .inl (Except.ok.inj h).symm

/-- The participant is opened, the fee is paid, and the record counts them. -/
theorem joinTournament_asks {c : JoinTournament} (wf : Wellformed s) (h : joinTournament rt c s = .ok s') :
    ∃ t m₁ m₂, s.tournament? c.tournament = some t ∧ (∀ pw : Powers, pw.payer = some c.player → Asks pw s m₁) ∧
      m₁.tokenTransfer c.playerTokenAccount (.vault c.tournament) c.player t.entryFee = .ok m₂ ∧
      (∀ pw : Powers, Asks pw m₂ s') := by
  simp only [joinTournament, bind_ok, pure_ok, Ledger.loadTournament_ok] at h
  obtain ⟨t, ⟨ht, _⟩, _, _, _, _, _, _, _, _, _, _, _, _, m₁, h₁, _, _, _, _, _, _, m₂, paid, _, _, rfl⟩ := h
  have entered (pw : Powers) (payer : pw.payer = some c.player) : Asks pw s m₁ := initAccount_asks payer rfl h₁
  have plain : m₂.token? c.tournament = none :=
    transfer_plain paid ((entered { payer := some c.player } rfl).plain
      (unheld_of_isTournament (isTournament_of_record wf ht)) (record_plain ht))
  exact ⟨t, m₁, m₂, ht, entered, paid, fun pw => .single (.write _ _ plain rfl)⟩

theorem startTournament_asks {c : StartTournament} (wf : Wellformed s) (power : pw.payer = some c.organizer)
    (h : startTournament rt c s = .ok s') : Asks pw s s' := by
  simp only [startTournament, bind_ok, pure_ok, Ledger.loadTournament_ok] at h
  obtain ⟨t, ⟨ht, _⟩, _, _, _, _, t₁, _, _, _, st, loop, _, _, t₂, _, rfl⟩ := h
  have chunk : Asks pw s st.ledger := by
    refine each_related (R := fun (st st' : Progress) => Asks pw st.ledger st'.ledger) (fun _ => .refl)
      (fun _ _ _ first rest => first.trans rest) ?_ _ _ _ loop
    rintro st ⟨d, matchAccount⟩ st' h
    simp only [initMatch, bind_ok, pure_ok] at h
    obtain ⟨_, _, _, _, _, _, _, _, _, _, m, created, _, _, rfl⟩ := h
    exact createAccount_asks power rfl created
  exact Asks.write chunk (unheld_of_isTournament (isTournament_of_record wf ht)) (record_plain ht) rfl

end Opening

section Paying

variable {mint : Pubkey}

theorem vault_pays {destination : Pubkey} {amount : Nat} (power : pw.pays = some key)
    (h : s.tokenTransfer (.vault key) destination key amount = .ok s') : Asks pw s s' :=
  .single (.pay _ _ _ power h)

theorem distributePrizes_asks {t : Tournament} {n : MatchNode} {treasury winner : Pubkey} {vault : TokenAccount}
    {remaining placements : List Pubkey} (power : pw.pays = some key)
    (h : distributePrizes s key t n treasury vault remaining winner placements = .ok s') : Asks pw s s' := by
  simp only [distributePrizes, bind_ok] at h
  obtain ⟨_, _, _, _, _, _, _, _, _, _, s₁, prizes, fee⟩ := h
  have paid : Asks pw s s₁ := by
    refine each_related (R := Asks pw) (fun _ => .refl) (fun _ _ _ first rest => first.trans rest) ?_ _ _ _ prizes
    rintro s ⟨amount, wallet, account⟩ s' h
    simp only [ite_ok, bind_ok] at h
    rcases h with ⟨_, h⟩ | ⟨_, _, _, h⟩
    · obtain rfl := Except.ok.inj h
      exact .refl
    · exact vault_pays power h
  simp only [payFee, ite_ok, bind_ok] at fee
  rcases fee with ⟨_, h⟩ | ⟨_, _, _, _, _, h⟩
  · obtain rfl := Except.ok.inj h
    exact paid
  · exact paid.trans (vault_pays power h)

theorem finalizeMatch_asks {t : Tournament} {n : MatchNode} {next : Option MatchNode} {vault : TokenAccount}
    {treasury : Pubkey} {remaining : List Pubkey} {v : Verdict} {f : Finalized}
    (power : isFinal t n → pw.pays = some key)
    (h : finalizeMatch s key t n next vault treasury remaining v = .ok f) : Asks pw s f.ledger := by
  simp only [finalizeMatch, bind_ok, ite_ok, pure_ok] at h
  obtain ⟨_, _, _, _, _, _, _, _, ⟨final, _, _, _, _, s₁, h₁, rfl⟩ | ⟨_, _, _, _, _, rfl⟩⟩ := h
  · exact distributePrizes_asks (power final) h₁
  · exact .refl

/-- Only a final pays out of the vault. -/
theorem finalize_asks {ix : Instruction} {c : FinalizeAccounts} (wf : Wellformed s)
    (call : Instruction.finalize? ix = some c) (power : ∀ t n, s.tournament? c.tournament = some t →
      s.matchNode? c.matchAccount = some n → isFinal t n → pw.pays = some c.tournament)
    (h : ix.run rt s = .ok s') : Asks pw s s' := by
  have form : Finalizing rt ix c := finalizing call
  obtain ⟨rest, shape, finalizes⟩ := form.runs s
  rw [shape] at h
  simp only [bind_ok] at h
  obtain ⟨l, hl, h⟩ := h
  obtain ⟨f, hf, written⟩ := finalizes l s' h
  have loads := loadFinalize_ok hl
  have paid : Asks pw s f.ledger := finalizeMatch_asks (power l.t l.m loads.record loads.matchAccount) hf
  have recorded : Asks pw s (f.ledger.setAccount c.tournament (.tournament f.tournament)) :=
    Asks.write paid (unheld_of_isTournament (isTournament_of_record wf loads.record)) (record_plain loads.record) rfl
  have back : Asks pw s (writeBack c f) := by
    have matched := Asks.write recorded (a := .matchNode f.matchAccount) (q := c.matchAccount)
      (by simp [loads.address]) (node_plain loads.matchAccount) rfl
    rw [writeBack]
    cases hq : c.nextMatch with
    | none => exact matched
    | some q =>
        cases f.nextMatch with
        | none => exact matched
        | some n =>
            have load := loads.next
            rw [hq] at load
            simp only [loadNext, bind_ok, orThrow_ok] at load
            obtain ⟨n', hn, _⟩ := load
            obtain ⟨rfl, _⟩ := node_fits wf hn
            exact Asks.write matched (by simp) (node_plain hn) rfl
  rcases written with rfl | ⟨a, b, x, y, rfl⟩
  · exact back
  · exact Asks.write (Asks.write back (by simp) (participant_unheld wf a) rfl) (by simp) (participant_unheld wf b) rfl

theorem refundPair_asks {t : Tournament} {pair : Pubkey × Pubkey} (power : pw.pays = some key)
    (h : refundPair key t s pair = .ok s') : Asks pw s s' := by
  simp only [refundPair, bind_ok, ite_ok, pure_ok, Ledger.readParticipant_ok] at h
  obtain ⟨x, hx, _, _, ⟨_, rfl⟩ | ⟨_, _, _, s₁, h₁, rfl⟩⟩ := h
  · exact .refl
  · exact (vault_pays power h₁).tail (.write _ _ (transfer_plain h₁ (participant_plain hx)) rfl)

theorem refundDeposit_asks {t t' : Tournament} {account : Option Pubkey} (power : pw.pays = some key)
    (h : refundDeposit key t account s = .ok (s', t')) : Asks pw s s' := by
  simp only [refundDeposit, ite_ok] at h
  rcases h with ⟨_, h⟩ | ⟨_, h⟩
  · cases account with
    | none =>
        obtain ⟨rfl, _⟩ := Prod.mk.inj (Except.ok.inj h)
        exact .refl
    | some p =>
        simp only [bind_ok, pure_ok] at h
        obtain ⟨_, _, _, _, _, _, s₁, h₁, same⟩ := h
        obtain ⟨rfl, _⟩ := Prod.mk.inj same
        exact vault_pays power h₁
  · obtain ⟨rfl, _⟩ := Prod.mk.inj (Except.ok.inj h)
    exact .refl

theorem refundChunk_asks {c : CancelTournament} {t t₀ : Tournament} (wf : Wellformed s)
    (ht : s.tournament? c.tournament = some t₀) (power : pw.pays = some c.tournament)
    (h : refundChunk c t s = .ok s') : Asks pw s s' := by
  simp only [refundChunk, bind_ok, pure_ok] at h
  obtain ⟨_, _, ⟨s₁, t₁⟩, h₁, s₂, h₂, rfl⟩ := h
  have loop : Asks pw s₁ s₂ :=
    each_related (R := Asks pw) (fun _ => .refl) (fun _ _ _ first rest => first.trans rest)
      (fun _ _ _ h => refundPair_asks power h) _ _ _ h₂
  exact Asks.write ((refundDeposit_asks power h₁).trans loop) (unheld_of_isTournament (isTournament_of_record wf ht))
    (record_plain ht) rfl

end Paying

section Writing

theorem record_asks {t t' : Tournament} (h : s.loadTournament p = .ok t) :
    Asks pw s (s.setAccount p (.tournament t')) :=
  .single (.write p _ (record_plain (Ledger.loadTournament_ok.1 h).1) rfl)

theorem match_asks {n n' : MatchNode} (h : s.loadMatch key p = .ok n) :
    Asks pw s (s.setAccount p (.matchNode n')) :=
  .single (.write p _ (node_plain (Ledger.loadMatch_ok.1 h).1) rfl)

theorem edit_asks {ix : Instruction} {c : MatchAccounts} (call : Instruction.edit? ix = some c)
    (h : ix.run rt s = .ok s') : Asks pw s s' := by
  cases ix with
  | proposeResult c winner =>
      simp only [Instruction.run, proposeResult, bind_ok, pure_ok] at h
      obtain ⟨_, _, n, hn, _, _, _, _, _, _, _, _, _, _, _, _, rfl⟩ := h
      exact match_asks hn
  | proposeResultOracle c feed =>
      simp only [Instruction.run, proposeResultOracle, bind_ok, pure_ok] at h
      obtain ⟨_, _, n, hn, _, _, _, _, _, _, _, _, _, _, _, _, _, _, _, _, _, _, _, _, rfl⟩ := h
      exact match_asks hn
  | disputeResult c reason =>
      simp only [Instruction.run, disputeResult, bind_ok, pure_ok] at h
      obtain ⟨_, _, n, hn, _, _, _, _, _, _, _, _, rfl⟩ := h
      exact match_asks hn
  | commitMatchLobby c lobby hash =>
      simp only [Instruction.run, commitMatchLobby, bind_ok, pure_ok] at h
      obtain ⟨_, _, _, _, n, hn, _, _, _, _, _, _, _, _, _, _, _, _, rfl⟩ := h
      exact match_asks hn
  | bindMatchFeed c feed =>
      simp only [Instruction.run, bindMatchFeed, bind_ok, pure_ok] at h
      obtain ⟨_, _, _, _, n, hn, _, _, _, _, _, _, _, _, _, _, _, _, _, _, rfl⟩ := h
      exact match_asks hn
  | _ => cases call

theorem updateConfig_asks {authority : Pubkey} {f : ProtocolConfig → ProtocolConfig}
    (h : updateConfig authority f s = .ok s') : Asks pw s s' := by
  simp only [updateConfig, bind_ok, pure_ok, Ledger.loadConfig, orThrow_ok] at h
  obtain ⟨cfg, hcfg, _, _, rfl⟩ := h
  exact .single (.write _ _ (config_plain hcfg) rfl)

end Writing

section Closing

variable {dest : Pubkey} {closed : List Pubkey}

theorem drainAll_asks (power : pw.closes = some key) (home : ∀ q ∈ closed, q.home = some key) (apart : dest ∉ closed)
    (empty : ∀ q ∈ closed, ∀ v, s.token? q = some v → v.amount = 0) : Asks pw s (drainAll s dest closed) := by
  induction closed generalizing s with
  | nil => exact .refl
  | cons q closed ih =>
      obtain ⟨ne, apart⟩ := not_or.1 (mt List.mem_cons.2 apart)
      have first : Primitive pw s (s.drainAccount q dest) :=
        .close key q dest power (home q List.mem_cons_self) (Ne.symm ne) (empty q List.mem_cons_self)
      refine .head first (ih (fun r hr => home r (List.mem_cons_of_mem q hr)) apart fun r hr v hv => ?_)
      rw [drain_token] at hv
      split at hv
      · cases hv
      · exact empty r (List.mem_cons_of_mem q hr) v hv

theorem closeTournament_asks {c : CloseTournament} (wf : Wellformed s) (power : pw.closes = some c.tournament)
    (h : closeTournament c s = .ok s') : Asks pw s s' := by
  simp only [closeTournament, bind_ok, require_ok, ite_ok, pure_ok, Ledger.loadTournament_ok,
    Ledger.loadVault_ok] at h
  obtain ⟨t, ⟨ht, _⟩, _, organizes, _, _, u, ⟨hu, _⟩, _, _, s₁, h₁, h⟩ := h
  have hk := isTournament_of_record wf ht
  have organizer : c.organizer.canSign = true := organizes ▸ (record_fits wf ht).2.2
  obtain ⟨closed, rfl, _, _, kinds⟩ := closeChildren_drains wf hk organizer h₁
  have leaves : Asks pw s (drainAll s c.organizer closed) := by
    refine drainAll_asks power (fun q hq => ?_) (fun hq => child_apart wf (kinds _ hq) organizer rfl) fun q hq v hv => ?_
    · obtain ⟨_, rfl⟩ | ⟨_, rfl⟩ := child_home wf (kinds q hq) <;> rfl
    · have child := kinds q hq
      rw [Ledger.token?_eq_some.1 hv] at child
      exact child.elim
  rcases h with ⟨root, h⟩ | ⟨_, rfl⟩
  · simp only [closeRoot, bind_ok, require_ok, pure_ok] at h
    obtain ⟨_, _, _, empty, rfl⟩ := h
    have roots : CloseTournament.roots c = [.vault c.tournament, c.tournament] := if_pos root
    refine leaves.trans (?_ : Asks pw _ (drainAll _ c.organizer [.vault c.tournament, c.tournament]))
    refine drainAll_asks power ?_ ?_ ?_
    · exact List.forall_mem_cons.2 ⟨rfl, List.forall_mem_singleton.2 (home_self hk)⟩
    · intro mem
      rw [← roots] at mem
      exact Bool.false_ne_true ((root_cannot_sign hk mem).symm.trans organizer)
    · intro q hq v hv
      rw [Ledger.token?, drainAll_accounts] at hv
      split at hv
      · cases hv
      · rcases List.mem_pair.1 hq with rfl | rfl
        · cases hv.symm.trans hu
          exact empty
        · cases (record_plain ht).symm.trans hv
  · exact leaves

end Closing

/-- Every call is made of primitives within its powers. -/
theorem call_asks {ix : Instruction} (wf : Wellformed s) (h : ix.run rt s = .ok s') :
    Asks (Instruction.powers ix) s s' := by
  cases ix with
  | initializeProtocol c =>
      simp only [Instruction.run, initializeProtocol, bind_ok] at h
      obtain ⟨_, _, h⟩ := h
      exact initAccount_asks rfl rfl h
  | setSasConfig => exact updateConfig_asks h
  | setOracleConfig =>
      simp only [Instruction.run, setOracleConfig, bind_ok] at h
      obtain ⟨_, _, _, _, h⟩ := h
      exact updateConfig_asks h
  | createTournament c =>
      obtain ⟨m, opened, rfl | ⟨source, _, paid⟩⟩ := createTournament_asks h
      · exact opened _ rfl rfl
      · exact (opened _ rfl rfl).tail (.spend _ _ _ _ rfl paid)
  | joinTournament c =>
      obtain ⟨t, m₁, m₂, _, entered, paid, counted⟩ := joinTournament_asks wf h
      exact ((entered _ rfl).tail (.spend _ _ _ _ rfl paid)).trans (counted _)
  | requestSeed c =>
      simp only [Instruction.run, requestSeed, bind_ok, pure_ok] at h
      obtain ⟨t, ht, _, _, _, _, _, _, _, _, _, _, _, _, _, _, rfl⟩ := h
      exact record_asks ht
  | revealSeed c =>
      simp only [Instruction.run, revealSeed, bind_ok, pure_ok] at h
      obtain ⟨t, ht, _, _, _, _, _, _, _, _, _, _, _, _, rfl⟩ := h
      exact record_asks ht
  | startTournament c => exact startTournament_asks wf rfl h
  | proposeResult | proposeResultOracle | disputeResult | commitMatchLobby | bindMatchFeed => exact edit_asks rfl h
  | reportResult | confirmResult | claimResult | forceClaimDisputed | resolveDispute | settleFinal =>
      exact finalize_asks wf rfl (fun _ _ _ _ _ => rfl) h
  | cancelTournament c =>
      simp only [Instruction.run, cancelTournament, bind_ok, Ledger.loadTournament_ok] at h
      obtain ⟨t, ⟨ht, _⟩, _, _, _, _, _, _, _, _, h⟩ := h
      exact refundChunk_asks wf ht rfl h
  | partialCancelTournament c =>
      simp only [Instruction.run, partialCancelTournament, bind_ok, pure_ok] at h
      obtain ⟨t, ht, _, _, _, _, rfl⟩ := h
      exact record_asks ht
  | partialRefundChunk c =>
      simp only [Instruction.run, partialRefundChunk, bind_ok, Ledger.loadTournament_ok] at h
      obtain ⟨t, ⟨ht, _⟩, _, _, _, _, _, _, h⟩ := h
      exact refundChunk_asks wf ht rfl h
  | closeTournament c => exact closeTournament_asks wf rfl h

end BracketChain.Primitives
