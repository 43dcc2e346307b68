import BracketChain.StartEffects
import Mathlib.Order.Monotone.Defs

namespace BracketChain.Acceptance

open Outcome Keys Records Accounts Seeding Start Program Layout View Lifecycle StartEffects

variable {rt : Runtime} {s s' s'' : Ledger} {key organizer : Pubkey}

/-- The participant account that an occupied seat needs in the tail. -/
def seatAccount (key player : Pubkey) : List Pubkey := if player = default then [] else [.participant key player]

def seatAccounts (key : Pubkey) (d : MatchInitDescriptor) : List Pubkey :=
  seatAccount key d.playerA ++ seatAccount key d.playerB

section Validation

variable {w : Draw} {d : MatchInitDescriptor} {rest : List Pubkey} (wf : Wellformed s)
include wf

theorem carries_real {wallet : Pubkey} {i : Nat} (h : Carries (viewOf s key).participant wallet i) :
    wallet ≠ default := by
  obtain ⟨x, hx, _⟩ := h
  exact participant_real wf (Option.isSome_iff_exists.2 ⟨x, hx⟩)

theorem consumeAndCheck_carried {wallet : Pubkey} {i : Nat} (h : Carries (viewOf s key).participant wallet i) :
    consumeAndCheck s key wallet i (seatAccount key wallet ++ rest) = .ok rest := by
  rw [seatAccount, if_neg (carries_real wf h)]
  obtain ⟨x, hx, number⟩ := h
  obtain ⟨address, _, _⟩ := participant_fits wf (p := .participant key wallet) hx
  obtain ⟨home, owner⟩ := Pubkey.participant.inj address
  simp only [consumeAndCheck, List.cons_append, List.nil_append, bind_ok, require_ok, pure_ok,
    Ledger.readParticipant_ok]
  exact ⟨x, hx, (), home.symm, (), owner.symm, (), number, trivial⟩

theorem validateRound1Slot_accepts {player : Pubkey} {parent : Nat}
    (h : SlotSeated (viewOf s key).participant w player parent) :
    validateRound1Slot s key w player parent (seatAccount key player ++ rest) = .ok rest := by
  obtain ⟨winner, opponent, hw, seated⟩ := h
  simp only [validateRound1Slot, hw, bind_ok, orThrow_ok]
  refine ⟨(winner, opponent), rfl, ?_⟩
  split at seated
  · rw [if_pos ‹_›]
    simp only [bind_ok, require_ok]
    exact ⟨(), seated.1, consumeAndCheck_carried wf seated.2⟩
  · rw [if_neg ‹_›]
    simp only [bind_ok, require_ok, pure_ok]
    exact ⟨(), seated, by rw [seatAccount, if_pos seated, List.nil_append]⟩

theorem validateRound0_accepts (first : d.round = 0) (h : Seated (viewOf s key).participant w d) :
    validateRound0 s key w d (seatAccounts key d ++ rest) = .ok rest := by
  rw [Seated, if_pos first] at h
  obtain ⟨a, opponent, hw, carries, seated⟩ := h
  simp only [validateRound0, hw, bind_ok, orThrow_ok]
  rw [seatAccounts, List.append_assoc]
  refine ⟨(a, opponent), rfl, _, consumeAndCheck_carried wf carries, ?_⟩
  cases opponent with
  | none =>
      obtain ⟨bye, none_⟩ := seated
      simp only [bind_ok, require_ok, pure_ok]
      exact ⟨(), bye, (), none_, by rw [seatAccount, if_pos none_, List.nil_append]⟩
  | some b =>
      obtain ⟨bye, real, carriesB⟩ := seated
      simp only [bind_ok, require_ok]
      exact ⟨(), bye, (), real, consumeAndCheck_carried wf carriesB⟩

/-- A descriptor that agrees with the draw passes, and takes exactly its own
participant accounts off the tail. -/
theorem validateDescriptor_accepts (h : Seated (viewOf s key).participant w d) :
    validateDescriptorAgainstSeed s key w d (seatAccounts key d ++ rest) = .ok rest := by
  unfold validateDescriptorAgainstSeed
  by_cases first : d.round = 0
  · rw [if_pos first]
    exact validateRound0_accepts wf first h
  · rw [if_neg first]
    rw [Seated, if_neg first] at h
    obtain ⟨bye, h⟩ := h
    simp only [bind_ok, require_ok]
    refine ⟨(), bye, ?_⟩
    rw [seatAccounts, List.append_assoc]
    split at h
    · rw [if_pos ‹_›, bind_ok]
      exact ⟨_, validateRound1Slot_accepts wf h.1, validateRound1Slot_accepts wf h.2⟩
    · rw [if_neg ‹_›]
      simp only [bind_ok, require_ok, pure_ok]
      exact ⟨(), h.1, (), h.2, by simp [seatAccount, h.1, h.2]⟩

theorem vacant_node {slot : Slot} (empty : (viewOf s key).node slot = none) :
    s.accounts (.matchNode key slot) = .system := by
  have fits := wf (.matchNode key slot)
  cases h : s.accounts (.matchNode key slot) with
  | system => rfl
  | matchNode m => simp [viewOf, Ledger.matchNode?, h, Account.asMatchNode] at empty
  | _ => simp [h, Account.fits] at fits

end Validation

section Rent

variable {ds es : List MatchInitDescriptor}

/-- The addresses of the matches hold no lamports, and the organizer has a
wallet without data that can pay the rent of all of them. -/
structure Funded (rt : Runtime) (key organizer : Pubkey) (s : Ledger) (ds : List MatchInitDescriptor) : Prop where
  clear : ∀ d ∈ ds, s.lamports (.matchNode key d.slot) = 0
  wallet : ds ≠ [] → s.accounts organizer = .system
  rent : rt.minimumBalance matchNodeSpace * ds.length ≤ s.lamports organizer

/-- The organizer has paid the rent of the matches, and the addresses of
other matches hold what they held. -/
structure Charged (rt : Runtime) (key organizer : Pubkey) (ds : List MatchInitDescriptor) (s s' : Ledger) : Prop where
  paid : s'.lamports organizer + rt.minimumBalance matchNodeSpace * ds.length = s.lamports organizer
  wallet : s'.accounts organizer = s.accounts organizer
  others : ∀ slot, (∀ d ∈ ds, d.slot ≠ slot) → s'.lamports (.matchNode key slot) = s.lamports (.matchNode key slot)

theorem Charged.refl (s : Ledger) : Charged rt key organizer [] s s := ⟨rfl, rfl, fun _ _ => rfl⟩

theorem Charged.trans (h : Charged rt key organizer ds s s') (h' : Charged rt key organizer es s' s'') :
    Charged rt key organizer (ds ++ es) s s'' := by
  refine ⟨?_, h'.wallet.trans h.wallet, fun slot apart => ?_⟩
  · rw [← h.paid, ← h'.paid, List.length_append, Nat.mul_add]
    omega
  · rw [List.forall_mem_append] at apart
    exact (h'.others slot apart.2).trans (h.others slot apart.1)

theorem funded_append (h : Charged rt key organizer ds s s') (first : Funded rt key organizer s ds)
    (distinct : ((ds ++ es).map MatchInitDescriptor.slot).Nodup) :
    Funded rt key organizer s (ds ++ es) ↔ Funded rt key organizer s' es := by
  have paid := h.paid
  have others {e : MatchInitDescriptor} (he : e ∈ es) :
      s'.lamports (.matchNode key e.slot) = s.lamports (.matchNode key e.slot) := by
    refine h.others e.slot fun d hd hs => ?_
    rw [List.map_append, List.nodup_append] at distinct
    exact distinct.2.2 _ (List.mem_map_of_mem hd) _ (List.mem_map_of_mem he) hs
  constructor
  · intro funded
    have rent := funded.rent
    rw [List.length_append, Nat.mul_add] at rent
    refine ⟨fun e he => (others he).trans (funded.clear e (List.mem_append_right ds he)), fun some_ => ?_, by omega⟩
    exact h.wallet.trans (funded.wallet (List.append_ne_nil_of_right_ne_nil ds some_))
  · intro funded
    have rent := funded.rent
    refine ⟨List.forall_mem_append.2 ⟨first.clear, fun e he => (others he).symm.trans (funded.clear e he)⟩, ?_, ?_⟩
    · intro some_
      by_cases none_ : ds = []
      · subst none_
        exact h.wallet.symm.trans (funded.wallet some_)
      · exact first.wallet none_
    · rw [List.length_append, Nat.mul_add]
      omega

theorem Funded.left (h : Funded rt key organizer s (ds ++ es)) : Funded rt key organizer s ds := by
  refine ⟨fun d hd => h.clear d (List.mem_append_left _ hd), fun some_ => ?_,
    Nat.le_trans (Nat.mul_le_mul_left _ ?_) h.rent⟩
  · exact h.wallet (List.append_ne_nil_of_left_ne_nil some_ es)
  · rw [List.length_append]
    exact Nat.le_add_right _ _

theorem Funded.of_perm (h : Funded rt key organizer s ds) (perm : ds.Perm es) : Funded rt key organizer s es :=
  ⟨fun e he => h.clear e (perm.mem_iff.2 he), fun some_ => h.wallet fun none_ => some_ (by simpa [none_] using perm),
    perm.length_eq ▸ h.rent⟩

/-- The rent of so many matches leaves the organizer with nothing, or with
what the runtime asks of a wallet. -/
def Rests (rt : Runtime) (organizer : Pubkey) (s : Ledger) (count : Nat) : Prop :=
  s.lamports organizer = rt.minimumBalance matchNodeSpace * count ∨
    rt.minimumBalance matchNodeSpace * count + rt.minimumBalance 0 ≤ s.lamports organizer

theorem Rests.rent {count : Nat} (h : Rests rt organizer s count) :
    rt.minimumBalance matchNodeSpace * count ≤ s.lamports organizer := by
  rcases h with h | h <;> omega

theorem Charged.rests_iff {count : Nat} (h : Charged rt key organizer ds s s') :
    Rests rt organizer s (ds.length + count) ↔ Rests rt organizer s' count := by
  have paid := h.paid
  simp only [Rests, Nat.mul_add]
  omega

/-- The runtime lets the chunk through that leaves enough for the matches to
come. -/
theorem Charged.allowed {count : Nat} (h : Charged rt key organizer ds s s') (grows : Monotone rt.minimumBalance)
    (rests : Rests rt organizer s (ds.length + count)) :
    RentAllows (rt.minimumBalance 0) (s.lamports organizer) (s'.lamports organizer) := by
  have after : Rests rt organizer s' count := h.rests_iff.1 rests
  have wallet : rt.minimumBalance 0 ≤ rt.minimumBalance matchNodeSpace := grows (Nat.zero_le _)
  rcases Nat.eq_zero_or_pos count with rfl | some_
  · rcases after with after | after
    · exact .inl after
    · exact .inr (.inl (by omega))
  · have one : rt.minimumBalance matchNodeSpace * 1 ≤ rt.minimumBalance matchNodeSpace * count :=
      Nat.mul_le_mul_left _ some_
    have rent := after.rent
    exact .inr (.inl (by omega))

theorem createMatch_charges {d : MatchInitDescriptor} {x : Account} (signer : organizer.canSign = true)
    (h : s.createAccount rt organizer (.matchNode key d.slot) matchNodeSpace x = .ok s') :
    Funded rt key organizer s [d] ∧ Charged rt key organizer [d] s s' := by
  have away (slot : Slot) : Pubkey.matchNode key slot ≠ organizer := by
    rintro rfl
    cases signer
  simp only [Ledger.createAccount, Ledger.transferLamports, bind_ok, require_ok, pure_ok] at h
  obtain ⟨_, ⟨_, clear⟩, _, ⟨_, wallet, _, rent, rfl⟩, rfl⟩ := h
  refine ⟨⟨List.forall_mem_singleton.2 clear, fun _ => Ledger.isSystem_iff.1 wallet, by simpa using rent⟩, ?_, ?_,
    fun slot apart => ?_⟩
  · simp only [Ledger.setAccount, Function.update_of_ne (away d.slot).symm, Function.update_self, List.length_singleton,
      Nat.mul_one]
    omega
  · rw [Ledger.setAccount_accounts, if_neg (away d.slot).symm]
  · have other : Pubkey.matchNode key slot ≠ .matchNode key d.slot := fun he =>
      apart d List.mem_cons_self (Pubkey.matchNode.inj he).2.symm
    simp only [Ledger.setAccount, Function.update_of_ne other, Function.update_of_ne (away slot)]

theorem createMatch_succeeds {d : MatchInitDescriptor} (x : Account)
    (vacant : s.accounts (.matchNode key d.slot) = .system) (funded : Funded rt key organizer s [d]) :
    ∃ s', s.createAccount rt organizer (.matchNode key d.slot) matchNodeSpace x = .ok s' := by
  have clear := funded.clear d List.mem_cons_self
  have rent : rt.minimumBalance matchNodeSpace ≤ s.lamports organizer := by simpa using funded.rent
  simp only [Ledger.createAccount, Ledger.transferLamports, bind_ok, require_ok, pure_ok]
  have wallet := Ledger.isSystem_iff.2 (funded.wallet (List.cons_ne_nil d []))
  exact ⟨_, (), ⟨Ledger.isSystem_iff.2 vacant, clear⟩, _, ⟨(), wallet, (), rent, rfl⟩, rfl⟩

end Rent

section Chunks

variable {size : Nat} {draw : Option Draw} {st st' : Progress} {d : MatchInitDescriptor} {ds : List MatchInitDescriptor}

theorem initMatch_charges {p : Pubkey} (signer : organizer.canSign = true)
    (h : initMatch rt key organizer size draw st (d, p) = .ok st') :
    Funded rt key organizer st.ledger [d] ∧ Charged rt key organizer [d] st.ledger st'.ledger := by
  simp only [initMatch, bind_ok, require_ok, pure_ok] at h
  obtain ⟨_, _, _, _, _, _, _, _, _, rfl, s₁, created, _, _, rfl⟩ := h
  exact createMatch_charges signer created

theorem initMatches_charges {items : List (MatchInitDescriptor × Pubkey)} (signer : organizer.canSign = true)
    (distinct : ((items.map Prod.fst).map MatchInitDescriptor.slot).Nodup)
    (h : each (initMatch rt key organizer size draw) st items = .ok st') :
    Funded rt key organizer st.ledger (items.map Prod.fst) ∧
      Charged rt key organizer (items.map Prod.fst) st.ledger st'.ledger := by
  induction items generalizing st with
  | nil =>
      obtain rfl : st = st' := by simpa [each] using h
      exact ⟨⟨by simp, by simp, by simp⟩, .refl _⟩
  | cons item items ih =>
      obtain ⟨d, p⟩ := item
      obtain ⟨m, hm, hrest⟩ := (each_cons_ok _ _ _ _ _).1 h
      obtain ⟨funded, charged⟩ := initMatch_charges signer hm
      obtain ⟨funded', charged'⟩ := ih ((List.nodup_cons.1 distinct).2) hrest
      exact ⟨(funded_append charged funded distinct).2 funded', charged.trans charged'⟩

theorem countBye_succeeds {byes : Nat} (room : byes + 1 ≤ u16Max) : ∃ n, countBye d byes = .ok n := by
  unfold countBye
  split
  · exact ⟨byes + 1, (orThrow_ok _ _ _).2 ((checkedAdd_eq_some _ _ _ _).2 ⟨room, rfl⟩)⟩
  · exact ⟨byes, rfl⟩

theorem initMatch_accepts {w : Draw} {rest : List Pubkey} (wf : Wellformed st.ledger)
    (inits : Inits rt key size (some w) (viewOf st.ledger key) d) (funded : Funded rt key organizer st.ledger [d])
    (tail : st.tail = seatAccounts key d ++ rest) (room : st.byes + 1 ≤ u16Max) :
    ∃ st', initMatch rt key organizer size (some w) st (d, .matchNode key d.slot) = .ok st' ∧ st'.tail = rest := by
  obtain ⟨s', created⟩ := createMatch_succeeds (.matchNode (d.node key)) (vacant_node wf inits.fresh) funded
  obtain ⟨byes, counted⟩ := countBye_succeeds room
  have validated : validateDescriptorAgainstSeed st.ledger key w d (seatAccounts key d ++ rest) = .ok rest :=
    validateDescriptor_accepts wf (inits.seated w rfl)
  refine ⟨⟨s', rest, byes⟩, ?_, rfl⟩
  simp only [initMatch, bind_ok, require_ok, pure_ok, validateSeat, tail]
  exact ⟨(), inits.round_lt, (), inits.index_lt, rest, validated, (), inits.offCurve, (), trivial, s', created, byes,
    counted, rfl⟩

theorem initMatches_accepts {w : Draw} {rest : List Pubkey} (wf : Wellformed st.ledger) (hk : key.isTournament = true)
    (signer : organizer.canSign = true) (inits : ∀ d ∈ ds, Inits rt key size (some w) (viewOf st.ledger key) d)
    (distinct : (ds.map MatchInitDescriptor.slot).Nodup) (funded : Funded rt key organizer st.ledger ds)
    (tail : st.tail = ds.flatMap (seatAccounts key) ++ rest) (room : st.byes + ds.length ≤ u16Max) :
    ∃ st', each (initMatch rt key organizer size (some w)) st (ds.map fun d => (d, .matchNode key d.slot)) = .ok st' ∧
      st'.tail = rest := by
  induction ds generalizing st with
  | nil => exact ⟨st, rfl, tail⟩
  | cons d ds ih =>
      obtain ⟨first, later⟩ := List.forall_mem_cons.1 inits
      rw [List.length_cons] at room
      have one : Funded rt key organizer st.ledger [d] := by
        rw [← List.singleton_append] at funded
        exact funded.left
      rw [List.flatMap_cons, List.append_assoc] at tail
      obtain ⟨m, hm, tail'⟩ := initMatch_accepts wf first one tail (by omega)
      obtain ⟨_, confined, view, byes⟩ := initMatch_effect wf hk hm
      obtain ⟨_, charged⟩ := initMatch_charges signer hm
      have apart {e : MatchInitDescriptor} (he : e ∈ ds) : e.slot ≠ d.slot := by
        rintro hs
        rw [List.map_cons, List.nodup_cons, ← hs] at distinct
        exact distinct.1 (List.mem_map_of_mem he)
      have inits' : ∀ e ∈ ds, Inits rt key size (some w) (viewOf m.ledger key) e := by
        intro e he
        obtain ⟨round, index, seated, curve, fresh⟩ := later e he
        rw [view]
        exact ⟨round, index, seated, curve, by simpa [place, apart he] using fresh⟩
      have counted : m.byes ≤ st.byes + 1 := by
        have : byesOf [d] ≤ 1 := List.length_filter_le _ _
        omega
      obtain ⟨st', rest', done⟩ := ih confined.wf inits' ((List.nodup_cons.1 distinct).2)
        ((funded_append charged one distinct).1 funded) tail' (by omega)
      exact ⟨st', (each_cons_ok _ _ _ _ _).2 ⟨m, hm, rest'⟩, done⟩

/-- A chunk as an honest client sends it: the matches of its descriptors, and
then the participants that they seat. -/
def chunkOf (organizer key : Pubkey) (ds : List MatchInitDescriptor) : StartTournament :=
  ⟨organizer, key, ds, ds.map (fun d => .matchNode key d.slot) ++ ds.flatMap (seatAccounts key)⟩

variable {t t' : Tournament}

theorem start_charges {a : StartTournament} (wf : Wellformed s) (signer : a.organizer.canSign = true)
    (h : startTournament rt a s = .ok s') : Funded rt a.tournament a.organizer s a.descriptors ∧
      Charged rt a.tournament a.organizer a.descriptors s s' := by
  simp only [startTournament, bind_ok, require_ok, pure_ok, Ledger.loadTournament_ok] at h
  obtain ⟨t, ⟨ht, _⟩, _, _, _, enough, t₁, _, _, _, st, inits, _, _, t₂, _, rfl⟩ := h
  have hk := isTournament_of_record wf ht
  obtain ⟨_, distinct, _⟩ := initMatches_effect wf hk inits
  obtain ⟨funded, charged⟩ := initMatches_charges signer distinct inits
  have listed : (a.descriptors.zip (a.remainingAccounts.take a.descriptors.length)).map Prod.fst = a.descriptors := by
    rw [List.map_fst_zip]
    simp [enough]
  rw [listed] at funded charged
  have away : a.organizer ≠ a.tournament := by
    rintro same
    rw [same, not_canSign_of_isTournament hk] at signer
    cases signer
  refine ⟨funded, charged.paid, ?_, charged.others⟩
  rw [Ledger.setAccount_accounts, if_neg away]
  exact charged.wallet

theorem tally_succeeds {count byes : Nat} (now : Int) (fits : t.matchesInitialized + count ≤ u16Max)
    (room : t.matchesReported + byes ≤ u16Max) : ∃ t', tally t count byes now = .ok t' := by
  have small : count % (u16Max + 1) = count := Nat.mod_eq_of_lt (by omega)
  simp only [tally, bind_ok, orThrow_ok, pure_ok, checkedAdd_eq_some, small]
  exact ⟨_, _, ⟨fits, rfl⟩, _, ⟨room, rfl⟩, rfl⟩

/-- Outside trust mode a chunk that keeps to the bracket and to the draw, with
the accounts it needs in their order, goes through as soon as its rent can be
paid. -/
theorem start_accepts {w : Draw} (wf : Wellformed s) (ht : s.tournament? key = some t)
    (opened : openBracket rt s key t = .ok t') (pending : t'.status = .pendingBracketInit)
    (draw : drawOf t' = some w) (chunk : Chunk rt key (viewOf s key) t' ds)
    (funded : Funded rt key t.organizer s ds) (fits : t'.matchesInitialized + ds.length ≤ u16Max)
    (room : t'.matchesReported + ds.length ≤ u16Max) :
    ∃ s', startTournament rt (chunkOf t.organizer key ds) s = .ok s' := by
  have hk := isTournament_of_record wf ht
  obtain ⟨address, _, signer⟩ := record_fits wf ht
  have inits : ∀ d ∈ ds, Inits rt key t'.bracketSize (some w) (viewOf s key) d := fun d hd =>
    ⟨chunk.round_lt d hd, chunk.index_lt d hd, fun w' hw => chunk.seated w' (draw.trans hw) d hd, chunk.offCurve d hd,
      chunk.fresh d hd⟩
  have small : (0 : Nat) + ds.length ≤ u16Max := by omega
  obtain ⟨st, ran, read⟩ : ∃ st, each (initMatch rt key t.organizer t'.bracketSize (some w))
      ⟨s, ds.flatMap (seatAccounts key), 0⟩ (ds.map fun d => (d, .matchNode key d.slot)) = .ok st ∧ st.tail = [] :=
    initMatches_accepts wf hk signer inits chunk.distinct funded (List.append_nil _).symm small
  obtain ⟨_, _, _, _, byes⟩ := initMatches_effect wf hk ran
  have counted : st.byes ≤ ds.length := by
    rw [byes, Nat.zero_add]
    exact Nat.le_trans (List.length_filter_le _ _) (by simp)
  obtain ⟨t₂, tallied⟩ := tally_succeeds s.clock.unixTimestamp fits (Nat.le_trans (Nat.add_le_add_left counted _) room)
  have items : ds.zip ((chunkOf t.organizer key ds).remainingAccounts.take ds.length) =
      ds.map fun d => (d, .matchNode key d.slot) := by
    have taken : (chunkOf t.organizer key ds).remainingAccounts.take ds.length =
        ds.map fun d => .matchNode key d.slot := List.take_left' (by simp)
    rw [taken]
    simpa using List.zip_map' (l := ds) (f := id) (g := fun d => Pubkey.matchNode key d.slot)
  have tail : (chunkOf t.organizer key ds).remainingAccounts.drop ds.length = ds.flatMap (seatAccounts key) :=
    List.drop_left' (by simp)
  simp only [startTournament, bind_ok, require_ok, pure_ok, Ledger.loadTournament_ok]
  refine ⟨st.ledger.setAccount key (.tournament t₂), t, And.intro ht address, (), rfl, (), by simp [chunkOf], t', opened,
    (), pending, st, ?_, (), .inr read, t₂, tallied, rfl⟩
  rw [draw]
  change each _ (Progress.mk s ((chunkOf t.organizer key ds).remainingAccounts.drop ds.length) 0)
    (ds.zip ((chunkOf t.organizer key ds).remainingAccounts.take ds.length)) = _
  rw [items, tail]
  exact ran

end Chunks

end BracketChain.Acceptance
