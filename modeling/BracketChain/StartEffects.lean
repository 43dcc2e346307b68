import BracketChain.RefundEffects

namespace BracketChain.StartEffects

open Outcome Keys Records Accounts Seeding Start Program Layout View Confinement Lifecycle RegistrationEffects

variable {rt : Runtime} {s s' : Ledger} {key : Pubkey}

section Validation

variable {w : Draw} {tail tail' : List Pubkey} (wf : Wellformed s)
include wf

theorem consumeAndCheck_carries {wallet : Pubkey} {i : Nat}
    (h : consumeAndCheck s key wallet i tail = .ok tail') : Carries (viewOf s key).participant wallet i := by
  cases tail with
  | nil => simp [consumeAndCheck] at h
  | cons p rest =>
      simp only [consumeAndCheck, bind_ok, require_ok, pure_ok, Ledger.readParticipant_ok] at h
      obtain ⟨x, hx, _, hkey, _, hwallet, _, hseed, _⟩ := h
      obtain ⟨hp, _, _⟩ := participant_fits wf hx
      rw [hkey, hwallet] at hp
      rw [hp] at hx
      exact ⟨x, hx, hseed⟩

theorem validateRound0_seated {d : MatchInitDescriptor} (h : validateRound0 s key w d tail = .ok tail') :
    ∃ a b, w.round0 d.matchIndex = some (a, b) ∧ Carries (viewOf s key).participant d.playerA a ∧
      OpponentSeated (viewOf s key).participant d b := by
  simp only [validateRound0, bind_ok, orThrow_ok] at h
  obtain ⟨⟨a, b⟩, hw, rest, hcheck, h⟩ := h
  refine ⟨a, b, hw, consumeAndCheck_carries wf hcheck, ?_⟩
  cases b with
  | none =>
      simp only [bind_ok, require_ok, pure_ok] at h
      obtain ⟨_, hbye, _, hb, _⟩ := h
      exact ⟨hbye, hb⟩
  | some b =>
      simp only [bind_ok, require_ok] at h
      obtain ⟨_, hbye, _, hb, h⟩ := h
      exact ⟨hbye, hb, consumeAndCheck_carries wf h⟩

theorem validateRound1Slot_seated {player : Pubkey} {parent : Nat}
    (h : validateRound1Slot s key w player parent tail = .ok tail') :
    SlotSeated (viewOf s key).participant w player parent := by
  simp only [validateRound1Slot, bind_ok, orThrow_ok, ite_ok, require_ok, pure_ok] at h
  obtain ⟨⟨winner, opponent⟩, hw, h⟩ := h
  refine ⟨winner, opponent, hw, ?_⟩
  rcases h with ⟨hn, _, hp, h⟩ | ⟨hs, _, hp, _⟩
  · simpa only [if_pos hn] using And.intro hp (consumeAndCheck_carries wf h)
  · simpa only [if_neg hs] using hp

theorem validateDescriptor_seated {d : MatchInitDescriptor}
    (h : validateDescriptorAgainstSeed s key w d tail = .ok tail') :
    Seated (viewOf s key).participant w d := by
  unfold Seated
  simp only [validateDescriptorAgainstSeed, ite_ok, bind_ok, require_ok, pure_ok] at h
  rcases h with ⟨h0, h⟩ | ⟨h0, _, hbye, ⟨h1, rest, ha, hb⟩ | ⟨h1, _, ha, _, hb, _⟩⟩
  · simpa only [if_pos h0] using validateRound0_seated wf h
  · simpa only [if_neg h0, if_pos h1] using
      And.intro hbye (And.intro (validateRound1Slot_seated wf ha) (validateRound1Slot_seated wf hb))
  · simpa only [if_neg h0, if_neg h1] using And.intro hbye (And.intro ha hb)

end Validation

theorem byesOf_cons (d : MatchInitDescriptor) (ds : List MatchInitDescriptor) :
    byesOf (d :: ds) = (if d.bye then 1 else 0) + byesOf ds := by
  cases h : d.bye <;> simp [byesOf, h, Nat.add_comm]

/-- One pass of the descriptor loop opens one fresh match. -/
structure Inits (rt : Runtime) (key : Pubkey) (size : Nat) (draw : Option Draw) (v : TournamentView)
    (d : MatchInitDescriptor) : Prop where
  round_lt : d.round < trailingZeros size
  index_lt : d.matchIndex < size >>> (d.round + 1)
  seated : ∀ w, draw = some w → Seated v.participant w d
  offCurve : rt.offCurve (.matchNode key d.slot) = true
  fresh : v.node d.slot = none

theorem initMatch_effect {organizer : Pubkey} {size : Nat} {draw : Option Draw} {st st' : Progress}
    {d : MatchInitDescriptor} {p : Pubkey} (wf : Wellformed st.ledger) (hk : key.isTournament = true)
    (h : initMatch rt key organizer size draw st (d, p) = .ok st') :
    Inits rt key size draw (viewOf st.ledger key) d ∧ Confined (some key) st.ledger st'.ledger ∧
      viewOf st'.ledger key = { viewOf st.ledger key with node := place key [d] (viewOf st.ledger key).node } ∧
      st'.byes = st.byes + byesOf [d] := by
  simp only [initMatch, bind_ok, require_ok, pure_ok] at h
  obtain ⟨_, hround, _, hindex, tail, htail, _, hcurve, _, rfl, s₁, h₁, byes, hbyes, rfl⟩ := h
  obtain ⟨hsys, l, rfl⟩ := Ledger.createAccount_ok h₁
  have fresh : (viewOf st.ledger key).node d.slot = none := by
    simp [viewOf, Ledger.matchNode?, hsys, Account.asMatchNode]
  refine ⟨⟨hround, hindex, fun w hw => ?_, hcurve, fresh⟩, confined_open wf ⟨rfl, hk⟩ (.inr rfl), ?_, ?_⟩
  · rw [hw] at htail
    exact validateDescriptor_seated wf htail
  · rw [viewOf_opened, viewOf_set_node hk]
    rfl
  · simp only [countBye, ite_ok, orThrow_ok, checkedAdd_eq_some] at hbyes
    rcases hbyes with ⟨hb, _, rfl⟩ | ⟨hb, hbyes⟩
    · simp [byesOf, hb]
    · obtain rfl : st.byes = byes := by simpa using hbyes
      simp [byesOf, hb]

theorem initMatches_effect {organizer : Pubkey} {size : Nat} {draw : Option Draw} {st st' : Progress}
    {items : List (MatchInitDescriptor × Pubkey)} (wf : Wellformed st.ledger) (hk : key.isTournament = true)
    (h : each (initMatch rt key organizer size draw) st items = .ok st') :
    (∀ d ∈ items.map Prod.fst, Inits rt key size draw (viewOf st.ledger key) d) ∧
      ((items.map Prod.fst).map MatchInitDescriptor.slot).Nodup ∧
      Confined (some key) st.ledger st'.ledger ∧
      viewOf st'.ledger key =
        { viewOf st.ledger key with node := place key (items.map Prod.fst) (viewOf st.ledger key).node } ∧
      st'.byes = st.byes + byesOf (items.map Prod.fst) := by
  induction items generalizing st with
  | nil =>
      obtain rfl : st = st' := by simpa [each] using h
      exact ⟨by simp, .nil, .refl wf, rfl, rfl⟩
  | cons item items ih =>
      obtain ⟨d, p⟩ := item
      obtain ⟨m, hm, hrest⟩ := (each_cons_ok _ _ _ _ _).1 h
      obtain ⟨first, c, hv, hb⟩ := initMatch_effect wf hk hm
      obtain ⟨rest, distinct, c', hv', hb'⟩ := ih c.wf hrest
      rw [hv] at rest
      -- the match just opened occupies its slot, so no later one lies there
      have apart {e} (he : e ∈ items.map Prod.fst) : e.slot ≠ d.slot := by
        intro hs
        have := (rest e he).fresh
        simp [place, hs] at this
      refine ⟨?_, ?_, c.trans c', ?_, ?_⟩
      · rw [List.map_cons, List.forall_mem_cons]
        refine ⟨first, fun e he => ?_⟩
        obtain ⟨hr, hi, hs, ho, hf⟩ := rest e he
        exact ⟨hr, hi, hs, ho, by simpa [place, apart he] using hf⟩
      · rw [List.map_cons, List.map_cons, List.nodup_cons, List.mem_map]
        refine ⟨?_, distinct⟩
        rintro ⟨e, he, hs⟩
        exact apart he hs
      · rw [hv', hv]
        rfl
      · rw [hb', hb, List.map_cons, byesOf_cons, byesOf_cons, Nat.add_assoc]
        rfl

theorem openBracket_opens {t t' : Tournament} (h : openBracket rt s key t = .ok t')
    (pending : t'.status = .pendingBracketInit) : Opens t t' := by
  simp only [openBracket, ite_ok, bind_ok, require_ok, pure_ok] at h
  rcases h with ⟨hreg, _, hmin, seed, hseed, size, hsize, _, _, rfl⟩ | ⟨_, h⟩
  · refine .inl ⟨hreg, hmin, seed, size, hsize, fun mode => ?_, rfl⟩
    simp only [bracketSeed, ite_ok, bind_ok, require_ok, pure_ok] at hseed
    rcases hseed with ⟨_, _, hrev, rfl⟩ | ⟨_, _, hmode, _⟩
    · exact ⟨hrev, rfl⟩
    · exact absurd hmode mode
  · obtain rfl : t = t' := by simpa using h
    exact .inr ⟨pending, rfl⟩

theorem opens_place {t t' : Tournament} (h : Opens t t') :
    (t'.organizer, t'.name, t'.vault) = (t.organizer, t.name, t.vault) := by
  rcases h with ⟨_, _, _, _, _, _, rfl⟩ | ⟨_, rfl⟩ <;> rfl

theorem tally_place {t t' : Tournament} {count byes : Nat} {now : Int} (h : tally t count byes now = .ok t') :
    (t'.organizer, t'.name, t'.vault) = (t.organizer, t.name, t.vault) := by
  simp only [tally, bind_ok, orThrow_ok, pure_ok] at h
  obtain ⟨_, _, _, _, rfl⟩ := h
  split <;> rfl

theorem start_simulated {a : StartTournament} (wf : Wellformed s)
    (bytes : 70 * a.descriptors.length ≤ maxInstructionData) (h : startTournament rt a s = .ok s') :
    Simulated rt a.tournament (.call (.startTournament a)) s s' := by
  simp only [startTournament, bind_ok, require_ok, pure_ok, Ledger.loadTournament_ok] at h
  obtain ⟨t, ⟨ht, _⟩, _, horg, _, hlen, t₁, hopen, _, hpend, st, hst, _, _, t₂, htally, rfl⟩ := h
  have hk := isTournament_of_record wf ht
  have opens := openBracket_opens hopen hpend
  have listed : (a.descriptors.zip (a.remainingAccounts.take a.descriptors.length)).map Prod.fst =
      a.descriptors := by
    rw [List.map_fst_zip]
    simp [hlen]
  obtain ⟨inits, distinct, c, hv, hb⟩ := initMatches_effect wf hk hst
  rw [listed] at inits distinct hv hb
  have chunk : Chunk rt a.tournament (viewOf s a.tournament) t₁ a.descriptors :=
    ⟨fun d hd => (inits d hd).round_lt, fun d hd => (inits d hd).index_lt,
      fun w hw d hd => (inits d hd).seated w hw, fun d hd => (inits d hd).offCurve,
      fun d hd => (inits d hd).fresh, distinct⟩
  have bound : a.descriptors.length ≤ u16Max := by
    simp only [maxInstructionData, u16Max] at bytes ⊢
    omega
  refine ⟨c.trans (confined_set_record wf ht c.wf ((tally_place htally).trans (opens_place opens))), ?_⟩
  rw [viewOf_set_record hk, hv]
  rw [hb, Nat.zero_add] at htally
  exact .start a rfl ht horg opens chunk htally bound

end BracketChain.StartEffects
