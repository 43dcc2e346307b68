import BracketChain.ChunkedStart

namespace BracketChain.Donations

open Outcome Keys Records Accounts Start Program Layout Refinement Acceptance Scripts ChunkedStart

variable {rt : Runtime} {s s' u : Ledger} {key organizer : Pubkey} {g : Slot → Nat}

/-- What an address holds on top when match addresses were sent `g`. -/
def gift (key : Pubkey) (g : Slot → Nat) : Pubkey → Nat
  | .matchNode k slot => if k = key then g slot else 0
  | _ => 0

def endow (key : Pubkey) (g : Slot → Nat) (s : Ledger) : Ledger :=
  { s with lamports := fun p => s.lamports p + gift key g p }

theorem gift_slot (slot : Slot) : gift key g (.matchNode key slot) = g slot := if_pos rfl

theorem gift_elsewhere {p : Pubkey} {slot : Slot} {n : Nat} (apart : p ≠ .matchNode key slot) :
    gift key (Function.update g slot n) p = gift key g p := by
  cases p with
  | matchNode k slot' =>
      by_cases home : k = key
      · subst home
        have other : slot' ≠ slot := fun same => apart (congrArg _ same)
        rw [gift_slot, gift_slot, Function.update_of_ne other]
      · exact (if_neg home).trans (if_neg home).symm
  | _ => rfl

theorem gift_signer (signer : organizer.canSign = true) : gift key g organizer = 0 := by
  cases organizer <;> first | rfl | cases signer

section Simulation

theorem endow_lamports (p : Pubkey) : (endow key g s).lamports p = s.lamports p + gift key g p := rfl

theorem update_add (l h : Pubkey → Nat) (p : Pubkey) (n : Nat) :
    (fun q => Function.update l p n q + h q) = Function.update (fun q => l q + h q) p (n + h p) := by
  funext q
  by_cases same : q = p
  · subst same
    rw [Function.update_self, Function.update_self]
  · rw [Function.update_of_ne same, Function.update_of_ne same]

theorem transferLamports_endow {p : Pubkey} {amount : Nat} (payer : gift key g organizer = 0) :
    (endow key g s).transferLamports organizer p amount = (s.transferLamports organizer p amount).map (endow key g) := by
  have balance : (endow key g s).lamports organizer = s.lamports organizer := by
    rw [endow_lamports, payer, Nat.add_zero]
  simp only [Ledger.transferLamports, Outcome.map_bind, balance]
  refine bind_congr fun _ => bind_congr fun _ => congrArg Except.ok ?_
  let debited := Function.update s.lamports organizer (s.lamports organizer - amount)
  have debit : Function.update (endow key g s).lamports organizer (s.lamports organizer - amount) =
      fun q => debited q + gift key g q := by
    rw [update_add, payer]
    rfl
  have credit : Function.update (fun q => debited q + gift key g q) p (debited p + gift key g p + amount) =
      fun q => Function.update debited p (debited p + amount) q + gift key g q := by
    rw [update_add debited, Nat.add_right_comm]
  rw [debit, credit]
  rfl

theorem createAccount_endow {p : Pubkey} {space : Nat} {a : Account} (payer : gift key g organizer = 0)
    (none_ : gift key g p = 0) :
    (endow key g s).createAccount rt organizer p space a = (s.createAccount rt organizer p space a).map (endow key g) := by
  have clear : (endow key g s).lamports p = s.lamports p := by rw [endow_lamports, none_, Nat.add_zero]
  simp only [Ledger.createAccount, Outcome.map_bind, clear]
  refine bind_congr fun _ => ?_
  rw [transferLamports_endow payer, bind_map]
  rfl

def Progress.endow (key : Pubkey) (g : Slot → Nat) (st : Progress) : Progress :=
  { st with ledger := Donations.endow key g st.ledger }

theorem initMatch_endow {size : Nat} {draw : Option Draw} {st : Progress} {d : MatchInitDescriptor} {p : Pubkey}
    (signer : organizer.canSign = true) (none_ : g d.slot = 0) :
    initMatch rt key organizer size draw (Progress.endow key g st) (d, p) =
      (initMatch rt key organizer size draw st (d, p)).map (Progress.endow key g) := by
  simp only [initMatch, Outcome.map_bind]
  refine bind_congr fun _ => bind_congr fun _ => bind_congr fun tail => bind_congr fun _ => bind_ok_congr fun _ address => ?_
  obtain rfl := (require_ok _ _ _).1 address
  rw [Progress.endow, createAccount_endow (gift_signer signer) ((gift_slot d.slot).trans none_), bind_map]
  rfl

theorem initMatches_endow {size : Nat} {draw : Option Draw} {st : Progress} {ds : List MatchInitDescriptor}
    {ps : List Pubkey} (signer : organizer.canSign = true) (none_ : ∀ d ∈ ds, g d.slot = 0) :
    each (initMatch rt key organizer size draw) (Progress.endow key g st) (ds.zip ps) =
      (each (initMatch rt key organizer size draw) st (ds.zip ps)).map (Progress.endow key g) := by
  refine each_map (I := fun _ => True) (J := fun item => g item.1.slot = 0) (fun _ _ _ _ _ _ => trivial) ?_ trivial ?_
  · rintro st ⟨d, p⟩ _ zero
    exact initMatch_endow signer zero
  · rintro ⟨d, p⟩ mem
    exact none_ d (List.of_mem_zip mem).1

/-- Lamports at the addresses of other matches change nothing about a chunk. -/
theorem startTournament_endow {a : StartTournament} (signer : a.organizer.canSign = true)
    (none_ : ∀ d ∈ a.descriptors, g d.slot = 0) :
    startTournament rt a (endow a.tournament g s) = (startTournament rt a s).map (endow a.tournament g) := by
  simp only [startTournament, Outcome.map_bind]
  refine bind_congr fun t => bind_congr fun _ => bind_congr fun _ => bind_congr fun t₁ => bind_congr fun _ => ?_
  let st : Progress := ⟨s, a.remainingAccounts.drop a.descriptors.length, 0⟩
  let items := a.descriptors.zip (a.remainingAccounts.take a.descriptors.length)
  have loop : each (initMatch rt a.tournament a.organizer t₁.bracketSize (drawOf t₁)) (Progress.endow a.tournament g st)
      items = _ := initMatches_endow signer none_
  change (each _ (Progress.endow a.tournament g st) items >>= _) = _
  rw [loop, bind_map]
  rfl

end Simulation

/-- What happens while the bracket is built: the organizer sends a chunk, or
someone sends lamports to the address of a match. -/
inductive Move
  | chunk (ds : List MatchInitDescriptor) (remainingAccounts : List Pubkey)
  | donate (slot : Slot) (amount : Nat)

def Move.action (organizer key : Pubkey) : Move → Action
  | chunk ds accounts => .call (.startTournament ⟨organizer, key, ds, accounts⟩)
  | donate slot amount => .outside (.sendLamports (.matchNode key slot) amount)

def Move.isChunk : Move → Bool
  | chunk _ _ => true
  | donate _ _ => false

/-- One move. A transfer that the runtime refuses changes nothing. -/
def Move.run (rt : Runtime) (organizer key : Pubkey) (s : Ledger) (m : Move) : Except Error Ledger :=
  match m with
  | chunk _ _ => (Move.action organizer key m).run rt s
  | donate _ _ => .ok (after rt s [Move.action organizer key m])

def runMoves (rt : Runtime) (organizer key : Pubkey) (s : Ledger) (ms : List Move) : Except Error Ledger :=
  each (Move.run rt organizer key) s ms

/-- A transfer that comes before a chunk goes to no match of it, brings
nothing, or is too small for the runtime to let through. -/
def Spares (rt : Runtime) : Move → Move → Prop
  | .donate slot amount, .chunk ds _ => ∀ d ∈ ds, d.slot = slot → amount = 0 ∨ amount < rt.minimumBalance 0
  | _, _ => True

section Moves

/-- What a transfer brings to the address of a match. -/
def landed (rt : Runtime) (key : Pubkey) (s : Ledger) (slot : Slot) (amount : Nat) : Nat :=
  let held := s.lamports (.matchNode key slot)
  if RentAllows (rt.minimumBalance 0) held (held + amount) then amount else 0

theorem landed_eq_zero {slot : Slot} {amount : Nat} (empty : s.lamports (.matchNode key slot) = 0) :
    landed rt key s slot amount = 0 ↔ amount = 0 ∨ amount < rt.minimumBalance 0 := by
  simp only [landed, empty, RentAllows]
  split <;> omega

theorem send_lands {slot : Slot} {amount : Nat} (s : Ledger) :
    after rt s [.outside (.sendLamports (.matchNode key slot) amount)] = { s with
      lamports := Function.update s.lamports (.matchNode key slot)
        (s.lamports (.matchNode key slot) + landed rt key s slot amount) } := by
  let p : Pubkey := .matchNode key slot
  have ran : Action.run rt (.outside (.sendLamports p amount)) s =
      (require (RentAllows (rt.minimumBalance 0) (s.lamports p) (s.lamports p + amount)) .insufficientFundsForRent >>=
        fun _ => .ok { s with lamports := Function.update s.lamports p (s.lamports p + amount) }) := by
    simp only [Action.run, Action.execute, Outside.run, Action.charged, Option.mem_def, Option.some.injEq, forall_eq',
      bind, Except.bind, Function.update_self]
    rfl
  rw [after, ran]
  by_cases allowed : RentAllows (rt.minimumBalance 0) (s.lamports p) (s.lamports p + amount)
  · have landed_ : landed rt key s slot amount = amount := if_pos allowed
    rw [landed_, require, if_pos allowed]
    rfl
  · have landed_ : landed rt key s slot amount = 0 := if_neg allowed
    rw [landed_, Nat.add_zero, Function.update_eq_self, require, if_neg allowed]
    rfl

theorem donate_endow (organizer : Pubkey) {slot : Slot} {amount : Nat} :
    Move.run rt organizer key (endow key g s) (.donate slot amount) =
      .ok (endow key (Function.update g slot (g slot + landed rt key (endow key g s) slot amount)) s) := by
  have sent (n : Nat) : Function.update (endow key g s).lamports (.matchNode key slot)
      ((endow key g s).lamports (.matchNode key slot) + n) =
      (endow key (Function.update g slot (g slot + n)) s).lamports := by
    funext p
    by_cases here : p = .matchNode key slot
    · subst here
      rw [Function.update_self, endow_lamports, endow_lamports, gift_slot, gift_slot, Function.update_self, Nat.add_assoc]
    · rw [Function.update_of_ne here, endow_lamports, endow_lamports, gift_elsewhere here]
  rw [Move.run, Move.action, send_lands, sent]
  rfl

theorem chunk_endow {ds : List MatchInitDescriptor} {accounts : List Pubkey} (none_ : ∀ d ∈ ds, g d.slot = 0)
    (step : Move.run rt organizer key s (.chunk ds accounts) = .ok s') :
    Move.run rt organizer key (endow key g s) (.chunk ds accounts) = .ok (endow key g s') := by
  have next : Step rt s (.call (.startTournament ⟨organizer, key, ds, accounts⟩)) s' := step
  obtain ⟨signer, bytes, ran⟩ := call_ran next
  have same : startTournament rt ⟨organizer, key, ds, accounts⟩ (endow key g s) = _ := startTournament_endow signer none_
  have none_ : gift key g organizer = 0 := gift_signer signer
  have balance (s : Ledger) : (endow key g s).lamports organizer = s.lamports organizer := by
    rw [endow_lamports, none_, Nat.add_zero]
  refine call_step signer bytes (same.trans (congrArg (Except.map (endow key g)) ran)) ?_
  intro p payer
  obtain rfl := Option.some.inj payer
  rw [balance, balance]
  exact (step_iff.1 next).2 organizer rfl

theorem chunk_charges {ds : List MatchInitDescriptor} {accounts : List Pubkey} (wf : Wellformed s)
    (step : Move.run rt organizer key s (.chunk ds accounts) = .ok s') :
    Funded rt key organizer s ds ∧ Charged rt key organizer ds s s' := by
  have next : Step rt s (.call (.startTournament ⟨organizer, key, ds, accounts⟩)) s' := step
  obtain ⟨signer, _, ran⟩ := call_ran next
  exact start_charges wf signer ran

theorem chunk_needs {ds : List MatchInitDescriptor} {accounts : List Pubkey} (wf : Wellformed s)
    (step : Move.run rt organizer key (endow key g s) (.chunk ds accounts) = .ok s') : ∀ d ∈ ds, g d.slot = 0 := by
  have wf' : Wellformed (endow key g s) := wellformed_of_accounts wf rfl
  obtain ⟨funded, _⟩ := chunk_charges wf' step
  intro d hd
  have clear := funded.clear d hd
  rw [endow_lamports, gift_slot] at clear
  omega

/-- Chunks that go through find the addresses of their matches empty from the
beginning. -/
theorem chunks_empty {ms : List Move} (wf : Wellformed s)
    (ready : runMoves rt organizer key s (ms.filter Move.isChunk) = .ok u) :
    ∀ ds accounts, .chunk ds accounts ∈ ms → ∀ d ∈ ds, s.lamports (.matchNode key d.slot) = 0 := by
  induction ms generalizing s with
  | nil => simp
  | cons m ms ih =>
      intro ds accounts mem d hd
      cases m with
      | donate slot amount =>
          rcases List.mem_cons.1 mem with head | mem
          · cases head
          · exact ih wf ready ds accounts mem d hd
      | chunk ds' accounts' =>
          obtain ⟨s₁, step, ready⟩ := (each_cons_ok _ _ _ _ _).1 ready
          obtain ⟨funded, charged⟩ := chunk_charges wf step
          by_cases first : ∃ e ∈ ds', e.slot = d.slot
          · obtain ⟨e, he, same⟩ := first
            rw [← same]
            exact funded.clear e he
          · rcases List.mem_cons.1 mem with head | mem
            · obtain ⟨rfl, rfl⟩ := Move.chunk.inj head
              exact absurd ⟨d, hd, rfl⟩ first
            · have next : Step rt s (.call (.startTournament ⟨organizer, key, ds', accounts'⟩)) s₁ := step
              rw [← charged.others d.slot fun e he same => first ⟨e, he, same⟩]
              exact ih (step_confined wf next).wf ready ds accounts mem d hd

theorem added_eq_zero {slot q : Slot} {amount : Nat} :
    Function.update g slot (g slot + amount) q = 0 ↔ g q = 0 ∧ (q = slot → amount = 0) := by
  by_cases same : q = slot
  · subst same
    rw [Function.update_self, Nat.add_eq_zero_iff]
    simp
  · rw [Function.update_of_ne same]
    simp [same]

/-- What a transfer brings counts against the chunks that come after it. -/
theorem gift_iff {ms : List Move} {slot : Slot} {amount : Nat}
    (empty : ∀ ds accounts, .chunk ds accounts ∈ ms → ∀ d ∈ ds, s.lamports (.matchNode key d.slot) = 0) :
    (∀ ds accounts, .chunk ds accounts ∈ ms → ∀ d ∈ ds,
        Function.update g slot (g slot + landed rt key (endow key g s) slot amount) d.slot = 0) ↔
      (∀ ds accounts, .chunk ds accounts ∈ Move.donate slot amount :: ms → ∀ d ∈ ds, g d.slot = 0) ∧
        ∀ b ∈ ms, Spares rt (.donate slot amount) b := by
  -- the address of a match that is still to be opened is empty before the transfer
  have lands {d : MatchInitDescriptor} (zero : g d.slot = 0) (none_ : s.lamports (.matchNode key d.slot) = 0) :
      (d.slot = slot → landed rt key (endow key g s) slot amount = 0) ↔
        (d.slot = slot → amount = 0 ∨ amount < rt.minimumBalance 0) := by
    refine forall_congr' fun here => landed_eq_zero ?_
    subst here
    rw [endow_lamports, gift_slot, zero, none_]
  constructor
  · intro zero
    have before (ds : List MatchInitDescriptor) accounts (mem : .chunk ds accounts ∈ ms) d (hd : d ∈ ds) : g d.slot = 0 :=
      (added_eq_zero.1 (zero ds accounts mem d hd)).1
    refine ⟨fun ds accounts mem d hd => ?_, fun b mem => ?_⟩
    · rcases List.mem_cons.1 mem with head | mem
      · cases head
      · exact before ds accounts mem d hd
    · cases b with
      | donate => trivial
      | chunk ds accounts =>
          exact fun d hd => (lands (before _ _ mem d hd) (empty _ _ mem d hd)).1
            (added_eq_zero.1 (zero ds accounts mem d hd)).2
  · rintro ⟨zero, spares⟩ ds accounts mem d hd
    have before := zero ds accounts (List.mem_cons_of_mem _ mem) d hd
    exact added_eq_zero.2 ⟨before, (lands before (empty _ _ mem d hd)).2 (spares _ mem d hd)⟩

theorem runMoves_iff {ms : List Move} (wf : Wellformed s)
    (ready : runMoves rt organizer key s (ms.filter Move.isChunk) = .ok u) :
    (∃ u', runMoves rt organizer key (endow key g s) ms = .ok u' ∧ u'.accounts = u.accounts) ↔
      (∀ ds accounts, .chunk ds accounts ∈ ms → ∀ d ∈ ds, g d.slot = 0) ∧ ms.Pairwise (Spares rt) := by
  induction ms generalizing s g with
  | nil =>
      obtain rfl : s = u := Except.ok.inj ready
      exact ⟨fun _ => ⟨nofun, .nil⟩, fun _ => ⟨_, rfl, rfl⟩⟩
  | cons m ms ih =>
      rw [List.pairwise_cons]
      cases m with
      | donate slot amount =>
          have sent : runMoves rt organizer key (endow key g s) (.donate slot amount :: ms) = runMoves rt organizer key
              (endow key (Function.update g slot (g slot + landed rt key (endow key g s) slot amount)) s) ms :=
            congrArg (· >>= _) (donate_endow organizer)
          have empty : ∀ ds accounts, .chunk ds accounts ∈ ms → ∀ d ∈ ds, s.lamports (.matchNode key d.slot) = 0 :=
            chunks_empty wf ready
          rw [sent, ih wf ready, gift_iff empty, and_assoc]
      | chunk ds accounts =>
          obtain ⟨m, step, ready⟩ := (each_cons_ok _ _ _ _ _).1 ready
          have next : Step rt s (.call (.startTournament ⟨organizer, key, ds, accounts⟩)) m := step
          have wf' := (step_confined wf next).wf
          have spares : ∀ b ∈ ms, Spares rt (.chunk ds accounts) b := fun _ _ => trivial
          constructor
          · rintro ⟨u', ran, same⟩
            obtain ⟨m', first, ran⟩ := (each_cons_ok _ _ _ _ _).1 ran
            have zero := chunk_needs wf first
            obtain rfl := Except.ok.inj (first.symm.trans (chunk_endow zero step))
            obtain ⟨later, pairs⟩ := (ih wf' ready).1 ⟨u', ran, same⟩
            refine ⟨fun ds' accounts' mem => ?_, spares, pairs⟩
            rcases List.mem_cons.1 mem with head | mem
            · obtain ⟨rfl, rfl⟩ := Move.chunk.inj head
              exact zero
            · exact later ds' accounts' mem
          · rintro ⟨zero, _, pairs⟩
            have first := chunk_endow (zero ds accounts List.mem_cons_self) step
            obtain ⟨u', ran, same⟩ :=
              (ih wf' ready).2 ⟨fun ds' accounts' mem => zero ds' accounts' (List.mem_cons_of_mem _ mem), pairs⟩
            exact ⟨u', (each_cons_ok _ _ _ _ _).2 ⟨_, first, ran⟩, same⟩

/-- The ledger without the lamports at match addresses of the tournament. -/
def cleared (key : Pubkey) (s : Ledger) : Ledger :=
  { s with lamports := fun p => match p with
      | .matchNode k slot => if k = key then 0 else s.lamports (.matchNode k slot)
      | _ => s.lamports p }

theorem endow_cleared (key : Pubkey) (s : Ledger) :
    endow key (fun slot => s.lamports (.matchNode key slot)) (cleared key s) = s := by
  have whole : (endow key (fun slot => s.lamports (.matchNode key slot)) (cleared key s)).lamports = s.lamports := by
    funext p
    cases p with
    | matchNode k slot =>
        by_cases home : k = key
        · subst home
          simp [endow_lamports, gift_slot, cleared]
        · simp [endow_lamports, cleared, gift, home]
    | _ => rfl
  exact congrArg (fun l => { s with lamports := l }) whole

/-- Chunks that are fine as far as the lamports of match addresses go are
accepted, and build the same accounts, exactly if no match of theirs was sent
lamports before that the runtime let through. -/
theorem unblocked_iff {ms : List Move} (reachable : Reachable rt s)
    (ready : runMoves rt organizer key (cleared key s) (ms.filter Move.isChunk) = .ok u) :
    (∃ u', runMoves rt organizer key s ms = .ok u' ∧ u'.accounts = u.accounts) ↔
      (∀ ds accounts, .chunk ds accounts ∈ ms → ∀ d ∈ ds, s.lamports (.matchNode key d.slot) = 0) ∧
        ms.Pairwise (Spares rt) := by
  have wf : Wellformed (cleared key s) := wellformed_of_accounts (reachable_wellformed reachable) rfl
  have moves := runMoves_iff (g := fun slot => s.lamports (.matchNode key slot)) wf ready
  rwa [endow_cleared] at moves

end Moves

section Samples

/-- The accounts that go with a chunk of the sample tournament. -/
def sampleChunk (ds : List MatchInitDescriptor) : Move :=
  .chunk ds (chunkOf (.key 1) sampleTournament.key ds).remainingAccounts

/-- A wallet's rent goes to a match that is open, and less than that, which the
runtime refuses, to one that is not. -/
def sampleMoves : List Move := [sampleChunk [lastOf3], .donate lastOf3.slot 890880, .donate gameOf3.slot 890879,
  sampleChunk [gameOf3, byeOf3]]

theorem sample_reachable (bs : List Action) :
    Reachable sampleRuntime (after sampleRuntime (created sampleRuntime sampleTournament sampleBorn) bs) :=
  reachable_run (reachable_run sampleBorn_reachable (script_run _ _)) (script_run _ bs)

theorem sampleMoves_unblocked : ∃ u u', runMoves sampleRuntime (.key 1) sampleTournament.key
      (cleared sampleTournament.key drawnThree) (sampleMoves.filter Move.isChunk) = .ok u ∧
    runMoves sampleRuntime (.key 1) sampleTournament.key drawnThree sampleMoves = .ok u' ∧ u'.accounts = u.accounts := by
  have spares : sampleMoves.Pairwise (Spares sampleRuntime) := by
    simp [sampleMoves, sampleChunk, Spares, lastOf3, gameOf3, byeOf3, MatchInitDescriptor.slot, sampleRuntime]
  have clear : ∀ ds accounts, .chunk ds accounts ∈ sampleMoves →
      ∀ d ∈ ds, drawnThree.lamports (.matchNode sampleTournament.key d.slot) = 0 := by
    intro ds accounts mem
    simp only [sampleMoves, sampleChunk, List.mem_cons, List.not_mem_nil, or_false, Move.chunk.injEq, reduceCtorEq,
      false_or] at mem
    obtain ⟨rfl, _⟩ | ⟨rfl, _⟩ := mem <;> decide
  obtain ⟨u, ready⟩ : ∃ u, runMoves sampleRuntime (.key 1) sampleTournament.key
    (cleared sampleTournament.key drawnThree) (sampleMoves.filter Move.isChunk) = .ok u := ⟨_, rfl⟩
  obtain ⟨u', ran, same⟩ := (unblocked_iff (sample_reachable _) ready).2 ⟨clear, spares⟩
  exact ⟨u, u', ready, ran, same⟩

/-- The ledger of the two players' tournament, whose only match is open to
gifts. -/
def drawnTwo : Ledger :=
  after sampleRuntime (created sampleRuntime sampleTournament sampleBorn) (twoRevealed sampleTournament.key)

/-- The least that the runtime lets through to an empty address blocks its
match. -/
theorem leastTransfer_blocks : ∃ ms u, Reachable sampleRuntime drawnTwo ∧ sampleRuntime.minimumBalance 0 = 890880 ∧
    ms = [.donate sampleFinal.slot 890880, sampleChunk [sampleFinal]] ∧
    runMoves sampleRuntime (.key 1) sampleTournament.key (cleared sampleTournament.key drawnTwo)
      (ms.filter Move.isChunk) = .ok u ∧
    runMoves sampleRuntime (.key 1) sampleTournament.key drawnTwo ms = .error .accountAlreadyInUse :=
  ⟨_, _, sample_reachable _, rfl, rfl, rfl, rfl⟩

end Samples

end BracketChain.Donations
