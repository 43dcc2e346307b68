import BracketChain.Lifecycle

namespace BracketChain.RegistrationEffects

open Outcome Keys Records Accounts Registration Program Layout View Confinement Lifecycle

/-- A step of the ledger that stays within one tournament and acts on it as
the abstract lifecycle says. -/
structure Simulated (rt : Runtime) (key : Pubkey) (a : Action) (s s' : Ledger) : Prop where
  confined : Confined (some key) s s'
  effect : Effect rt key s.clock a (viewOf s key) (viewOf s' key)

variable {rt : Runtime} {s s' : Ledger}

theorem confined_set_record {s₀ : Ledger} {t t' : Tournament} {key : Pubkey} (wf₀ : Wellformed s₀)
    (ht : s₀.tournament? key = some t) (wf : Wellformed s)
    (same : (t'.organizer, t'.name, t'.vault) = (t.organizer, t.name, t.vault)) :
    Confined (some key) s (s.setAccount key (.tournament t')) := by
  obtain ⟨ho, hn, hv⟩ : t'.organizer = t.organizer ∧ t'.name = t.name ∧ t'.vault = t.vault := by
    simpa using same
  refine confined_set wf ?_ (.inr (home_self (isTournament_of_record wf₀ ht)))
  simpa only [Account.fits, ho, hn, hv] using record_fits wf₀ ht

theorem viewOf_opened {p key : Pubkey} {a : Account} {l : Pubkey → Nat} :
    viewOf (Ledger.setAccount { s with lamports := l } p a) key = viewOf (s.setAccount p a) key := rfl

theorem payDeposit_view {a : CreateTournament} (wf : Wellformed s) (signer : a.organizer.canSign = true)
    (empty : (viewOf s a.key).vault = some ⟨a.tokenMint, a.key, 0, false⟩) (h : payDeposit s a = .ok s') :
    Confined (some a.key) s s' ∧
      viewOf s' a.key = { viewOf s a.key with vault := some ⟨a.tokenMint, a.key, a.organizerDeposit, false⟩ } := by
  simp only [payDeposit, ite_ok, bind_ok, orThrow_ok] at h
  rcases h with ⟨_, source, _, h⟩ | ⟨hz, h⟩
  · obtain ⟨u, hu, _, hv⟩ := viewOf_transfer_in wf rfl h signer
    obtain rfl : u = ⟨a.tokenMint, a.key, 0, false⟩ := Option.some.inj (hu.symm.trans empty)
    exact ⟨confined_transfer wf h (.inr signer), by simpa [TokenAccount.plus] using hv⟩
  · obtain rfl : s = s' := by simpa using h
    obtain hz : a.organizerDeposit = 0 := by omega
    exact ⟨.refl wf, by rw [hz, ← empty]⟩

theorem create_simulated {a : CreateTournament} (wf : Wellformed s) (signer : a.organizer.canSign = true)
    (h : createTournament rt a s = .ok s') : Simulated rt a.key (.call (.createTournament a)) s s' := by
  simp only [createTournament, bind_ok] at h
  obtain ⟨_, _, _, _, s₁, h₁, s₂, h₂, _, _, _, hc, h⟩ := h
  obtain ⟨hsys, l₁, rfl⟩ := Ledger.initAccount_ok h₁
  obtain ⟨_, l₂, rfl⟩ := Ledger.initAccount_ok h₂
  have c₁ : Confined (some a.key) s _ := confined_open (l := l₁) wf
    (p := a.key) (a := .tournament (a.record s.clock.unixTimestamp)) ⟨rfl, rfl, signer⟩ (.inr rfl)
  have c₂ : Confined (some a.key) _ _ := confined_open (l := l₂) c₁.wf
    (p := .vault a.key) (a := .token ⟨a.tokenMint, a.key, 0, false⟩) (.inr ⟨rfl, rfl, rfl⟩) (.inr rfl)
  have hk : a.key.isTournament = true := rfl
  have hv := viewOf_set_vault (s := Ledger.setAccount { s with lamports := l₁ } a.key
    (.tournament (a.record s.clock.unixTimestamp))) hk (.token ⟨a.tokenMint, a.key, 0, false⟩)
  rw [viewOf_opened, viewOf_set_record rfl] at hv
  obtain ⟨c₃, hp⟩ := payDeposit_view c₂.wf signer (by rw [viewOf_opened, hv]; rfl) h
  rw [viewOf_opened, hv] at hp
  have unopened : (viewOf s a.key).record = none := by simp [viewOf, Ledger.tournament?, hsys, Account.asTournament]
  exact ⟨(c₁.trans c₂).trans c₃, hp ▸ .create a rfl signer unopened hc⟩

theorem join_simulated {a : JoinTournament} (wf : Wellformed s) (signer : a.player.canSign = true)
    (h : joinTournament rt a s = .ok s') : Simulated rt a.tournament (.call (.joinTournament a)) s s' := by
  simp only [joinTournament, bind_ok, require_ok, orThrow_ok, pure_ok, checkedAdd_eq_some,
    Ledger.loadTournament_ok] at h
  obtain ⟨t, ⟨ht, _⟩, _, _, _, _, _, _, _, _, _, _, identity, _, s₁, h₁, _, hopen, _, hearly, _, hroom,
    s₂, h₂, count, ⟨_, rfl⟩, rfl⟩ := h
  have hk := isTournament_of_record wf ht
  obtain ⟨hsys, l₁, rfl⟩ := Ledger.initAccount_ok h₁
  have c₁ : Confined (some a.tournament) s _ := confined_open (l := l₁) wf (p := .participant a.tournament a.player)
    (a := .participant (newParticipant a.tournament a.player t.participantCount identity))
    ⟨rfl, hk, signer⟩ (.inr rfl)
  have c₂ : Confined (some a.tournament) _ s₂ := confined_transfer c₁.wf h₂ (.inr signer)
  obtain ⟨u, hu, _, hv⟩ := viewOf_transfer_in c₁.wf hk h₂ signer
  rw [viewOf_opened, viewOf_set_participant hk] at hu hv
  refine ⟨(c₁.trans c₂).trans (confined_set_record wf ht c₂.wf rfl), ?_⟩
  rw [viewOf_set_record hk, hv]
  have new : (viewOf s a.tournament).participant a.player = none := by
    simp [viewOf, Ledger.participant?, hsys, Account.asParticipant]
  exact .join a rfl signer identity ht hu new hopen hearly hroom

theorem requestSeed_simulated {a : RequestSeed} (wf : Wellformed s) (h : requestSeed rt a s = .ok s') :
    Simulated rt a.tournament (.call (.requestSeed a)) s s' := by
  simp only [requestSeed, bind_ok, require_ok, orThrow_ok, pure_ok, Ledger.loadTournament_ok] at h
  obtain ⟨t, ⟨ht, _⟩, _, horg, _, hopen, _, hmode, _, hhid, _, _, _, _, _, _, rfl⟩ := h
  have hk := isTournament_of_record wf ht
  refine ⟨confined_set_record wf ht wf rfl, ?_⟩
  rw [viewOf_set_record hk]
  exact .requestSeed a rfl ht horg hopen hmode hhid

theorem revealSeed_simulated {a : RevealSeed} (wf : Wellformed s) (h : revealSeed rt a s = .ok s') :
    Simulated rt a.tournament (.call (.revealSeed a)) s s' := by
  simp only [revealSeed, bind_ok, require_ok, orThrow_ok, pure_ok, Ledger.loadTournament_ok] at h
  obtain ⟨t, ⟨ht, _⟩, _, hacc, _, hhid, _, _, _, _, _, _, value, _, rfl⟩ := h
  have hk := isTournament_of_record wf ht
  refine ⟨confined_set_record wf ht wf rfl, ?_⟩
  rw [viewOf_set_record hk]
  exact .revealSeed a rfl value ht hacc hhid

end BracketChain.RegistrationEffects
