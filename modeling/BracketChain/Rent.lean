import BracketChain.Authority

namespace BracketChain.Rent

open Outcome Keys Records Accounts Registration Start Program Runs Layout View Lifecycle Bookkeeping Refinement Reclaim
  Frames Primitives Conservation Authority Scripts

variable {rt : Runtime} {s m s' : Ledger} {key p payer : Pubkey}

/-- The bytes of the account at an address of the program. -/
def Pubkey.space : Pubkey → Nat
  | .key _ => 0
  | .protocolConfig => protocolConfigSpace
  | .tournament _ _ => tournamentSpace
  | .vault _ => tokenAccountSpace
  | .participant _ _ => participantSpace
  | .matchNode _ _ => matchNodeSpace

/-- The addresses at which a call opens an account. -/
def Instruction.openings : Instruction → List Pubkey
  | .initializeProtocol _ => [.protocolConfig]
  | .createTournament a => [a.key, .vault a.key]
  | .joinTournament a => [.participant a.tournament a.player]
  | .startTournament a => a.descriptors.map fun d => .matchNode a.tournament d.slot
  | _ => []

def Action.openings : Action → List Pubkey
  | .call ix => Instruction.openings ix
  | .outside _ => []

section Standing

/-- The account at an address of the tournament is open. -/
def standing (v : TournamentView) : Pubkey → Bool
  | .key _ | .protocolConfig => false
  | .tournament _ _ => v.record.isSome
  | .vault _ => v.vault.isSome
  | .participant _ w => (v.participant w).isSome
  | .matchNode _ slot => (v.node slot).isSome

theorem standing_iff (wf : Wellformed s) (home : p.home = some key) :
    standing (viewOf s key) p = true ↔ s.accounts p ≠ .system := by
  have fits := wf p
  cases p with
  | key | protocolConfig => cases home
  | tournament | vault | participant | matchNode =>
      obtain rfl := Option.some.inj home
      simp only [standing, viewOf, Ledger.tournament?, Ledger.token?, Ledger.participant?, Ledger.matchNode?]
      generalize s.accounts _ = a at fits
      cases a <;> simp_all [Account.fits, Account.asTournament, Account.asToken, Account.asParticipant, Account.asMatchNode]

theorem standing_mono {v v' : TournamentView} (opened : standing v' p = true)
    (record : v'.record.isSome = true → v.record.isSome = true)
    (participant : ∀ w, (v'.participant w).isSome = true → (v.participant w).isSome = true)
    (node : ∀ slot, (v'.node slot).isSome = true → (v.node slot).isSome = true)
    (vault : v'.vault.isSome = true → v.vault.isSome = true) : standing v p = true := by
  cases p with
  | key | protocolConfig => exact opened
  | tournament => exact record opened
  | vault => exact vault opened
  | participant t w => exact participant w opened
  | matchNode t slot => exact node slot opened

theorem place_opens {ds : List MatchInitDescriptor} {node : Slot → Option MatchNode} {slot : Slot}
    (opened : (place key ds node slot).isSome = true) : (node slot).isSome = true ∨ ∃ d ∈ ds, d.slot = slot := by
  induction ds generalizing node with
  | nil => exact .inl opened
  | cons d ds ih =>
      rcases ih opened with before | ⟨e, mem, at_⟩
      · by_cases here : d.slot = slot
        · exact .inr ⟨d, List.mem_cons_self, here⟩
        · left
          simpa only [Function.update_of_ne (Ne.symm here)] using before
      · exact .inr ⟨e, List.mem_cons_of_mem d mem, at_⟩

theorem without_participant {v : TournamentView} {closed : List Pubkey} {w : Pubkey}
    (opened : ((TournamentView.without key closed v).participant w).isSome = true) : (v.participant w).isSome = true := by
  simp only [TournamentView.without] at opened
  split at opened
  · cases opened
  · exact opened

theorem without_node {v : TournamentView} {closed : List Pubkey} {slot : Slot}
    (opened : ((TournamentView.without key closed v).node slot).isSome = true) : (v.node slot).isSome = true := by
  simp only [TournamentView.without] at opened
  split at opened
  · cases opened
  · exact opened

variable {clock : Clock} {b : Action} {v v' : TournamentView}

/-- A tournament keeps its vault. -/
theorem effect_vaulted (effect : Effect rt key clock b v v') (vaulted : v.record.isSome = true → v.vault.isSome = true)
    (held : v'.record.isSome = true) : v'.vault.isSome = true := by
  cases effect with
  | others => simpa [TournamentView.credit] using vaulted held
  | create | join | conclude | refund => rfl
  | requestSeed _ _ record | revealSeed _ _ _ record | start _ _ record | partialCancel _ _ record
  | edit _ _ _ _ _ _ record | closeChildren _ _ _ record => exact vaulted (by simp [record])
  | advance _ _ _ _ finalizes => exact vaulted (by simp [finalizes.record])
  | closeRoot => cases held

/-- No other calls than those that list it open an account of a tournament. -/
theorem effect_opens (effect : Effect rt key clock b v v') (vaulted : v.record.isSome = true → v.vault.isSome = true)
    (home : p.home = some key) (opened : standing v' p = true) : standing v p = true ∨ p ∈ Action.openings b := by
  cases effect with
  | others k => exact .inl (standing_mono opened id (fun _ => id) (fun _ => id) (by simp [TournamentView.credit]))
  | create a key_eq =>
      cases p with
      | key | protocolConfig => cases home
      | tournament | vault =>
          obtain rfl := Option.some.inj home
          simp [Action.openings, Instruction.openings, key_eq]
      | participant | matchNode => exact .inl opened
  | join a key_eq _ _ record vault =>
      cases p with
      | key | protocolConfig => cases home
      | tournament => exact .inl (by simp [standing, record])
      | vault => exact .inl (by simp [standing, vault])
      | matchNode => exact .inl opened
      | participant t w =>
          obtain rfl := Option.some.inj home
          by_cases entrant : w = a.player
          · simp [Action.openings, Instruction.openings, entrant, key_eq]
          · left
            simpa [standing, entrant] using opened
  | start a key_eq record =>
      cases p with
      | key | protocolConfig => cases home
      | tournament => exact .inl (by simp [standing, record])
      | vault | participant => exact .inl opened
      | matchNode t slot =>
          obtain rfl := Option.some.inj home
          rcases place_opens opened with before | ⟨d, mem, rfl⟩
          · exact .inl before
          · exact .inr (List.mem_map.2 ⟨d, mem, by rw [key_eq]⟩)
  | requestSeed _ _ record | revealSeed _ _ _ record | partialCancel _ _ record =>
      exact .inl (standing_mono opened (fun _ => by simp [record]) (fun _ => id) (fun _ => id) id)
  | edit _ _ slot _ _ _ record node =>
      refine .inl (standing_mono opened id (fun _ => id) (fun q held => ?_) id)
      by_cases here : q = slot
      · simp [here, node]
      · simpa [here] using held
  | advance _ _ slot next finalizes _ _ parent =>
      refine .inl (standing_mono opened (fun _ => by simp [finalizes.record]) (fun w held => ?_) (fun q held => ?_) id)
      · rwa [← (finalizes_keepsRoles finalizes).isSome w]
      · by_cases here : q = next
        · simp [here, parent]
        · by_cases there : q = slot
          · simp [there, finalizes.node]
          · simpa [here, there] using held
  | conclude _ _ slot u _ finalizes =>
      have record : v.record.isSome = true := by simp [finalizes.record]
      refine .inl (standing_mono opened (fun _ => record) (fun w held => ?_) (fun q held => ?_) fun _ => vaulted record)
      · rwa [← (finalizes_keepsRoles finalizes).isSome w]
      · by_cases there : q = slot
        · simp [there, finalizes.node]
        · simpa [there] using held
  | refund _ _ _ ws record vault =>
      refine .inl (standing_mono opened (fun _ => by simp [record]) (fun w held => ?_) (fun _ => id) fun _ => by simp [vault])
      simp only [refundAll] at held
      split at held
      · simpa using held
      · exact held
  | closeChildren => exact .inl (standing_mono opened id (fun _ => without_participant) (fun _ => without_node) id)
  | closeRoot =>
      exact .inl (standing_mono opened (by simp) (fun _ => without_participant) (fun _ => without_node) (by simp))

end Standing

/-- Every open tournament has its vault. -/
def Vaulted (s : Ledger) : Prop := ∀ key, (s.tournament? key).isSome = true → (s.token? (.vault key)).isSome = true

theorem step_vaulted {b : Action} (wf : Wellformed s) (vaulted : Vaulted s) (step : Step rt s b s') : Vaulted s' := by
  intro key held
  obtain ⟨t, ht⟩ := Option.isSome_iff_exists.1 held
  have hk := isTournament_of_record (step_confined wf step).wf ht
  exact effect_vaulted (step_effect wf hk step) (vaulted key) held

theorem home_isTournament (wf : Wellformed s) (home : p.home = some key) (stands : s.accounts p ≠ .system) :
    key.isTournament = true := by
  have fits := wf p
  cases p with
  | key | protocolConfig => cases home
  | tournament =>
      obtain rfl := Option.some.inj home
      rfl
  | vault | participant | matchNode =>
      obtain rfl := Option.some.inj home
      generalize s.accounts _ = a at fits stands
      cases a <;> simp_all [Account.fits]

section Openings

variable {ix : Instruction}

theorem updateConfig_opened {authority : Pubkey} {f : ProtocolConfig → ProtocolConfig}
    (ran : updateConfig authority f s = .ok s') : s.accounts .protocolConfig ≠ .system := by
  simp only [updateConfig, bind_ok, pure_ok, Ledger.loadConfig, orThrow_ok] at ran
  obtain ⟨cfg, hcfg, _⟩ := ran
  simp [Ledger.config?_eq_some.1 hcfg]

theorem config_holds_none (wf : Wellformed s) : s.token? .protocolConfig = none := by
  cases h : s.token? .protocolConfig with
  | none => rfl
  | some v =>
      obtain ⟨_, hn⟩ | ⟨hv, _⟩ := token_fits wf h
      · cases hn
      · cases hv

theorem config_opens (wf : Wellformed s) (ran : ix.run rt s = .ok s') (stands : s'.accounts .protocolConfig ≠ .system) :
    s.accounts .protocolConfig ≠ .system ∨ .protocolConfig ∈ Instruction.openings ix := by
  have framed (own : ix.tournament ≠ none) : s.accounts .protocolConfig ≠ .system := by
    rwa [← (call_framed wf own ran).account .protocolConfig rfl (config_holds_none wf)]
  cases ix with
  | initializeProtocol => exact .inr (List.mem_singleton.2 rfl)
  | setSasConfig => exact .inl (updateConfig_opened ran)
  | setOracleConfig =>
      simp only [Instruction.run, setOracleConfig, bind_ok] at ran
      obtain ⟨_, _, _, _, ran⟩ := ran
      exact .inl (updateConfig_opened ran)
  | _ => exact .inl (framed (by simp [Instruction.tournament]))

/-- A step opens no other accounts of the program than those it lists. -/
theorem step_opens {b : Action} (wf : Wellformed s) (vaulted : Vaulted s) (step : Step rt s b s')
    (derived : ∀ n, p ≠ .key n) (stands : s'.accounts p ≠ .system) :
    s.accounts p ≠ .system ∨ p ∈ Action.openings b := by
  cases home : p.home with
  | some key =>
      have wf' := (step_confined wf step).wf
      have hk := home_isTournament wf' home stands
      rcases effect_opens (step_effect wf hk step) (vaulted key) home ((standing_iff wf' home).2 stands) with before | listed
      · exact .inl ((standing_iff wf home).1 before)
      · exact .inr listed
  | none =>
      obtain rfl : p = .protocolConfig := by
        cases p with
        | key n => exact absurd rfl (derived n)
        | protocolConfig => rfl
        | tournament | vault | participant | matchNode => cases home
      cases b with
      | call ix =>
          obtain ⟨_, _, ran⟩ := call_ran step
          exact config_opens wf ran stands
      | outside e =>
          left
          obtain same | ⟨_, _, _, own, _⟩ := outside_account step (config_holds_none wf)
          · rwa [← same]
          · cases own

end Openings

section Funding

variable {space : Nat} {a : Account} {ix : Instruction}

theorem transferLamports_funds {amount : Nat} (apart : p ≠ payer) (h : s.transferLamports payer p amount = .ok s') :
    s'.lamports p = s.lamports p + amount := by
  simp only [Ledger.transferLamports, bind_ok, require_ok, pure_ok] at h
  obtain ⟨_, _, _, _, rfl⟩ := h
  simp only [Function.update_self, Function.update_of_ne apart]

theorem initAccount_funds (apart : p ≠ payer) (h : s.initAccount rt payer p space a = .ok s') :
    rt.minimumBalance space ≤ s'.lamports p := by
  obtain ⟨_, m, rfl, ⟨enough, rfl⟩ | funded⟩ := Ledger.initAccount_cases h
  · exact enough
  · have held := transferLamports_funds apart funded
    change _ ≤ m.lamports p
    omega

theorem createAccount_funds (apart : p ≠ payer) (h : s.createAccount rt payer p space a = .ok s') :
    rt.minimumBalance space ≤ s'.lamports p := by
  simp only [Ledger.createAccount, bind_ok, require_ok, pure_ok] at h
  obtain ⟨_, _, m, funded, rfl⟩ := h
  have held := transferLamports_funds apart funded
  change _ ≤ m.lamports p
  omega

theorem apart_of_signer (signs : payer.canSign = true) (derived : ∀ n, p ≠ .key n) : p ≠ payer := by
  rintro rfl
  cases p with
  | key n => exact derived n rfl
  | protocolConfig | tournament | vault | participant | matchNode => cases signs

theorem asks_kept_derived {pw : Powers} (h : Asks pw s s') (closes : pw.closes = none)
    (payer : ∀ q, pw.payer = some q → q.canSign = true) (derived : ∀ n, p ≠ .key n) : s.lamports p ≤ s'.lamports p := by
  refine asks_lamports_kept (fun paid => ?_) (fun key power => ?_) h
  · exact apart_of_signer (payer p paid) derived rfl
  · cases closes.symm.trans power

theorem create_funds {c : CreateTournament} (signs : c.organizer.canSign = true) (ran : createTournament rt c s = .ok s') :
    rt.minimumBalance tournamentSpace ≤ s'.lamports c.key ∧ rt.minimumBalance tokenAccountSpace ≤ s'.lamports (.vault c.key) := by
  simp only [createTournament, bind_ok] at ran
  obtain ⟨_, _, _, _, s₁, h₁, s₂, h₂, _, _, _, _, ran⟩ := ran
  have paid : s'.lamports = s₂.lamports := by
    simp only [payDeposit, ite_ok, bind_ok] at ran
    rcases ran with ⟨_, _, _, ran⟩ | ⟨_, ran⟩
    · exact transfer_lamports ran
    · rw [Except.ok.inj ran]
  rw [paid]
  have opened : Asks { payer := some c.organizer, opens := some c.key } s₁ s₂ := initVault_asks rfl rfl h₂
  refine ⟨?_, initAccount_funds (apart_of_signer signs (by simp)) h₂⟩
  apply (initAccount_funds (apart_of_signer signs (by simp [CreateTournament.key])) h₁).trans
  exact asks_kept_derived opened rfl (fun q own => Option.some.inj own ▸ signs) (by simp [CreateTournament.key])

theorem join_funds {c : JoinTournament} (signs : c.player.canSign = true) (ran : joinTournament rt c s = .ok s') :
    rt.minimumBalance participantSpace ≤ s'.lamports (.participant c.tournament c.player) := by
  simp only [joinTournament, bind_ok, pure_ok] at ran
  obtain ⟨_, _, _, _, _, _, _, _, _, _, _, _, _, _, s₁, h₁, _, _, _, _, _, _, s₂, paid, _, _, rfl⟩ := ran
  change _ ≤ s₂.lamports _
  rw [transfer_lamports paid]
  exact initAccount_funds (apart_of_signer signs (by simp)) h₁

theorem start_funds {c : StartTournament} (signs : c.organizer.canSign = true) (ran : startTournament rt c s = .ok s') :
    ∀ d ∈ c.descriptors, rt.minimumBalance matchNodeSpace ≤ s'.lamports (.matchNode c.tournament d.slot) := by
  simp only [startTournament, bind_ok, pure_ok] at ran
  obtain ⟨_, _, _, _, _, listed, _, _, _, _, st, loop, _, _, _, _, rfl⟩ := ran
  have all : (c.descriptors.zip (c.remainingAccounts.take c.descriptors.length)).map Prod.fst = c.descriptors := by
    apply List.map_fst_zip
    rw [List.length_take]
    exact Nat.le_min.2 ⟨Nat.le_refl _, (require_ok _ _ _).1 listed⟩
  have funded := each_settles (Q := fun i st => rt.minimumBalance matchNodeSpace ≤
    (Progress.ledger st).lamports (.matchNode c.tournament i.1.slot)) ?_ ?_ loop
  · rw [← all]
    exact List.forall_mem_map.2 funded
  · rintro st ⟨d, q⟩ st' h
    simp only [initMatch, bind_ok, pure_ok, require_ok] at h
    obtain ⟨_, _, _, _, _, _, _, _, _, rfl, m, created, _, _, rfl⟩ := h
    exact createAccount_funds (apart_of_signer signs (by simp)) created
  · rintro st ⟨d, q⟩ ⟨d', q'⟩ st' held h
    simp only [initMatch, bind_ok, pure_ok] at h
    obtain ⟨_, _, _, _, _, _, _, _, _, _, m, created, _, _, rfl⟩ := h
    have opened : Asks { payer := some c.organizer } st.ledger m := createAccount_asks rfl rfl created
    exact held.trans (asks_kept_derived opened rfl (fun q own => Option.some.inj own ▸ signs) (by simp))

/-- A call pays the rent of all accounts that it opens. -/
theorem openings_funded (signs : ix.signer.canSign = true) (ran : ix.run rt s = .ok s')
    (listed : p ∈ Instruction.openings ix) : rt.minimumBalance (Pubkey.space p) ≤ s'.lamports p := by
  cases ix with
  | initializeProtocol c =>
      obtain rfl := List.mem_singleton.1 listed
      simp only [Instruction.run, initializeProtocol, bind_ok] at ran
      obtain ⟨_, _, ran⟩ := ran
      exact initAccount_funds (apart_of_signer signs (by simp)) ran
  | createTournament c =>
      obtain ⟨record, vault⟩ := create_funds signs ran
      rcases List.mem_pair.1 listed with rfl | rfl
      · exact record
      · exact vault
  | joinTournament c =>
      obtain rfl := List.mem_singleton.1 listed
      exact join_funds signs ran
  | startTournament c =>
      obtain ⟨d, mem, rfl⟩ := List.mem_map.1 listed
      exact start_funds signs ran d mem
  | _ => cases listed

end Funding

section Rents

/-- The account at the address holds its rent, if there is one. -/
def Rented (rt : Runtime) (p : Pubkey) (s : Ledger) : Prop :=
  s.accounts p ≠ .system → rt.minimumBalance (Pubkey.space p) ≤ s.lamports p

theorem powers_signer {ix : Instruction} {q : Pubkey} (power : (Instruction.powers ix).payer = some q) : q = ix.signer := by
  cases ix <;> first | exact (Option.some.inj power).symm | cases power

/-- What a call leaves open keeps its lamports. -/
theorem call_rent_kept {ix : Instruction} (wf : Wellformed s) (signs : ix.signer.canSign = true)
    (ran : ix.run rt s = .ok s') (derived : ∀ n, p ≠ .key n) (stands : s'.accounts p ≠ .system) :
    s.lamports p ≤ s'.lamports p := by
  by_cases closing : (Instruction.powers ix).closes = none
  · apply asks_kept_derived (call_asks wf ran) closing ?_ derived
    intro q power
    rw [powers_signer power]
    exact signs
  · cases ix with
    | closeTournament c =>
        obtain ⟨t, closed, _, _, _, closes⟩ := closeTournament_closes wf ran
        rw [closes.lamports]
        rw [closes.accounts] at stands
        split
        · rename_i gone
          exact absurd (if_pos gone) stands
        · split
          · exact Nat.le_add_right _ _
          · exact Nat.le_refl _
    | _ => exact absurd rfl closing

theorem outside_rent_kept {e : Outside} (ran : e.run s = .ok s') (derived : ∀ n, p ≠ .key n) :
    s.lamports p ≤ s'.lamports p := by
  cases e with
  | clock | slotHashes =>
      obtain rfl := Except.ok.inj ran
      exact Nat.le_refl _
  | account n a =>
      simp only [Outside.run, bind_ok, pure_ok] at ran
      obtain ⟨_, _, rfl⟩ := ran
      exact Nat.le_refl _
  | sendTokens q amount =>
      simp only [Outside.run, bind_ok, pure_ok] at ran
      obtain ⟨_, _, _, _, rfl⟩ := ran
      exact Nat.le_refl _
  | sendLamports q amount =>
      obtain rfl := Except.ok.inj ran
      simp only [Function.update_apply]
      split
      · rename_i here
        subst here
        exact Nat.le_add_right _ _
      · exact Nat.le_refl _
  | spendLamports n amount =>
      obtain rfl := Except.ok.inj ran
      simp only [Function.update_of_ne (derived n)]
      exact Nat.le_refl _

theorem step_rented {b : Action} (wf : Wellformed s) (vaulted : Vaulted s) (derived : ∀ n, p ≠ .key n)
    (rented : Rented rt p s) (step : Step rt s b s') : Rented rt p s' := by
  intro stands
  have opens := step_opens wf vaulted step derived stands
  cases b with
  | outside e =>
      have before : s.accounts p ≠ .system := opens.resolve_right (by simp [Action.openings])
      exact (rented before).trans (outside_rent_kept (outside_ran step) derived)
  | call ix =>
      obtain ⟨signs, _, ran⟩ := call_ran step
      rcases opens with before | listed
      · exact (rented before).trans (call_rent_kept wf signs ran derived stands)
      · exact openings_funded signs ran listed

theorem genesis_vaulted (genesis : Genesis s) : Vaulted s := by
  intro key held
  rw [genesis_record genesis key] at held
  cases held

/-- All open accounts of the program and the vaults were opened by a call of
the run that lists them, and hold their rent. -/
theorem run_rented {start : Ledger} {past : History} (genesis : Genesis start) (run : Run rt start past s) :
    Vaulted s ∧ ∀ p, (∀ n, p ≠ .key n) → Rented rt p s ∧ (s.accounts p ≠ .system → ∃ e ∈ past, p ∈ Action.openings e.2) := by
  refine run.invariant (P := fun past s => Vaulted s ∧ ∀ p, (∀ n, p ≠ .key n) → Rented rt p s ∧
    (s.accounts p ≠ .system → ∃ e ∈ past, p ∈ Action.openings e.2)) ?_ ?_
  · refine ⟨genesis_vaulted genesis, fun p derived => ?_⟩
    have vacant := genesis.derived p derived
    exact ⟨fun held => absurd vacant held, fun held => absurd vacant held⟩
  · rintro past m b s' run ⟨vaulted, kept⟩ step
    have wf := run_wellformed (genesis_wellformed genesis) run
    refine ⟨step_vaulted wf vaulted step, fun p derived => ?_⟩
    obtain ⟨rented, opened⟩ := kept p derived
    refine ⟨step_rented wf vaulted derived rented step, fun held => ?_⟩
    rcases step_opens wf vaulted step derived held with before | listed
    · obtain ⟨e, mem, listed⟩ := opened before
      exact ⟨e, List.mem_append_left _ mem, listed⟩
    · exact ⟨(m, b), List.mem_concat_self, listed⟩

/-- At any time, every account of the program and every vault was opened by a
call of the run that lists its address, and holds the rent of its size. -/
theorem rent_exempt {start : Ledger} {past : History} (genesis : Genesis start) (run : Run rt start past s)
    (derived : ∀ n, p ≠ .key n) (stands : s.accounts p ≠ .system) :
    (∃ e ∈ past, p ∈ Action.openings e.2) ∧ rt.minimumBalance (Pubkey.space p) ≤ s.lamports p := by
  obtain ⟨_, kept⟩ := run_rented genesis run
  obtain ⟨rented, opened⟩ := kept p derived
  exact ⟨opened stands, rented stands⟩

/-- The final of the sample tournament pays for its account. -/
theorem endedSample_exempt :
    (∃ e ∈ log sampleRuntime sampleGenesis (proposedFinal ++ [concede sampleTournament.key]),
      finalMatch sampleTournament.key ∈ Action.openings e.2) ∧
    3584400 ≤ endedSample.lamports (finalMatch sampleTournament.key) := by
  have stands : (endedSample.accounts (finalMatch sampleTournament.key)).isSystem = false := by decide
  exact rent_exempt sampleGenesis_genesis (script_run _ _) (by simp [finalMatch]) fun gone => by
    cases stands.symm.trans (congrArg Account.isSystem gone)

end Rents

end BracketChain.Rent
