import BracketChain.Payable
import BracketChain.Rent
import BracketChain.Unwinding

namespace BracketChain.Closing

open Outcome Keys Records Accounts Refunds Program Runs Layout View Refinement Bookkeeping Reclaim Balance Primitives
  Conservation Rent Scripts

variable {rt : Runtime} {s s' : Ledger} {key p anyone organizer : Pubkey} {t : Tournament}
  {children closed : List Pubkey} {chunks : List (Pubkey × List Pubkey)}

/-- All lamports together fit in a `u64`. -/
def LamportsFit (s : Ledger) : Prop := ∀ S : Finset Pubkey, ∑ p ∈ S, s.lamports p ≤ u64Max

/-- What a closing call checks, other than the accounts it closes. -/
structure Ready (key : Pubkey) (t : Tournament) (s : Ledger) : Prop where
  wf : Wellformed s
  record : s.tournament? key = some t
  ended : terminal t.status
  vault : ∃ u, s.token? (.vault key) = some u ∧ u.amount = 0
  organizer : s.accounts t.organizer = .system
  fit : LamportsFit s

/-- A list that a closing call accepts. -/
def Listed (key organizer : Pubkey) (s : Ledger) (children : List Pubkey) : Prop :=
  ∀ p ∈ children, Child key (s.accounts p) ∨ (s.lamports p = 0 ∧ p ≠ organizer)

section Children

theorem drain_fit (fit : LamportsFit s) (home : p.home = some key) (apart : p ≠ organizer)
    (empty : ∀ v, s.token? p = some v → v.amount = 0) : LamportsFit (s.drainAccount p organizer) := by
  have drained : Primitive { closes := some key } s (s.drainAccount p organizer) := .close key p organizer rfl home apart empty
  exact (primitive_lamports drained).bounded fit

theorem child_untoken (child : Child key (s.accounts p)) (v : TokenAccount) (held : s.token? p = some v) :
    v.amount = 0 := by
  rw [Ledger.token?_eq_some.1 held] at child
  exact child.elim

theorem closeChild_succeeds (wf : Wellformed s) (fit : LamportsFit s) (signer : organizer.canSign = true)
    (child : Child key (s.accounts p)) (held : s.lamports p ≠ 0) :
    closeChild key organizer s p = .ok (s.drainAccount p organizer) := by
  have apart : organizer ≠ p := (child_apart wf child signer).symm
  have room := fit {organizer, p}
  rw [Finset.sum_pair apart] at room
  simp only [closeChild, if_neg held, bind_ok, require_ok, orThrow_ok, pure_ok]
  generalize s.accounts p = a at child
  cases a with
  | participant x | matchNode x => exact ⟨(), rfl, key, congrArg some child, (), rfl, (), room, trivial⟩
  | _ => exact child.elim

theorem closeChildren_succeed (wf : Wellformed s) (fit : LamportsFit s) (signer : organizer.canSign = true)
    (listed : Listed key organizer s children) : ∃ s', each (closeChild key organizer) s children = .ok s' := by
  induction children generalizing s with
  | nil => exact ⟨s, rfl⟩
  | cons c children ih =>
      obtain ⟨first, others⟩ := List.forall_mem_cons.1 listed
      by_cases held : s.lamports c = 0
      · obtain ⟨s', rest⟩ := ih wf fit others
        exact ⟨s', (each_cons_ok _ _ _ _ _).2 ⟨s, if_pos held, rest⟩⟩
      · have child := first.resolve_right fun none_ => held none_.1
        have apart := child_apart wf child signer
        have home : c.home = some key := by
          obtain ⟨_, rfl⟩ | ⟨_, rfl⟩ := child_home wf child <;> rfl
        obtain ⟨s', rest⟩ := ih (child_drained wf child) (drain_fit fit home apart (child_untoken child)) fun p hp => by
          rw [drain_accounts, drain_lamports]
          by_cases again : p = c
          · exact .inr ⟨if_pos again, again ▸ apart⟩
          · rw [if_neg again, if_neg again]
            refine (others p hp).imp_right ?_
            rintro ⟨none_, ne⟩
            exact ⟨by rw [if_neg ne, none_], ne⟩
        exact ⟨s', (each_cons_ok _ _ _ _ _).2 ⟨_, closeChild_succeeds wf fit signer child held, rest⟩⟩

end Children

section Chunks

variable (ready : Ready key t s)
include ready

theorem Ready.isTournament : key.isTournament = true := isTournament_of_record ready.wf ready.record

theorem Ready.signer : t.organizer.canSign = true := (record_fits ready.wf ready.record).2.2

theorem Ready.not_root (child : Child key (s.accounts p)) : p ≠ .vault key ∧ p ≠ key := by
  constructor
  · rintro rfl
    obtain ⟨u, hu, _⟩ := ready.vault
    rw [Ledger.token?_eq_some.1 hu] at child
    exact child.elim
  · rintro rfl
    rw [Ledger.tournament?_eq_some.1 ready.record] at child
    exact child.elim

/-- Children may go before the root. -/
theorem Ready.drained (kinds : ∀ p ∈ closed, Child key (s.accounts p)) :
    Ready key t (drainAll s t.organizer closed) := by
  have kept {q : Pubkey} (apart : q ∉ closed) : (drainAll s t.organizer closed).accounts q = s.accounts q := by
    rw [drainAll_accounts, if_neg apart]
  have organizer : t.organizer ∉ closed := fun mem => child_apart ready.wf (kinds _ mem) ready.signer rfl
  have asked : Asks { closes := some key } s (drainAll s t.organizer closed) := by
    refine drainAll_asks rfl (fun q hq => ?_) organizer fun q hq v hv => child_untoken (kinds q hq) v hv
    obtain ⟨_, rfl⟩ | ⟨_, rfl⟩ := child_home ready.wf (kinds q hq) <;> rfl
  refine ⟨fun p => ?_, ?_, ready.ended, ?_, ?_, ?_⟩
  · rw [drainAll_accounts]
    split
    · trivial
    · exact ready.wf p
  · rw [Ledger.tournament?, kept fun mem => (ready.not_root (kinds _ mem)).2 rfl]
    exact ready.record
  · obtain ⟨u, hu, none_⟩ := ready.vault
    refine ⟨u, ?_, none_⟩
    rw [Ledger.token?, kept fun mem => (ready.not_root (kinds _ mem)).1 rfl]
    exact hu
  · rw [kept organizer]
    exact ready.organizer
  · exact (Balanced.chain Ledger.lamports (fun _ _ => primitive_lamports) asked).bounded ready.fit

/-- A call that closes children, and the root on request. -/
def closing (anyone key organizer : Pubkey) (root : Bool) (children : List Pubkey) : Action :=
  .call (.closeTournament ⟨anyone, key, organizer, root, children⟩)

/-- Anyone can have listed children closed. -/
theorem chunk_runs (signs : anyone.canSign = true) (listed : Listed key t.organizer s children) :
    ∃ closed, Step rt s (closing anyone key t.organizer false children) (drainAll s t.organizer closed) ∧ closed.Nodup ∧
      (∀ p, p ∈ closed ↔ p ∈ children ∧ s.lamports p ≠ 0) ∧ ∀ p ∈ closed, Child key (s.accounts p) := by
  obtain ⟨seeds, vault, _⟩ := record_fits ready.wf ready.record
  obtain ⟨u, hu, _⟩ := ready.vault
  obtain ⟨s', loop⟩ := closeChildren_succeed ready.wf ready.fit ready.signer listed
  obtain ⟨closed, rfl, distinct, members, kinds⟩ := closeChildren_drains ready.wf ready.isTournament ready.signer loop
  refine ⟨closed, ?_, distinct, members, kinds⟩
  refine unpaid_step rfl signs ?_
  simp only [Instruction.run, closeTournament, bind_ok, require_ok, ite_ok, pure_ok]
  refine ⟨t, Ledger.loadTournament_ok.2 ⟨ready.record, seeds⟩, (), rfl, (), ?_, u,
    Ledger.loadVault_ok.2 ⟨hu, vault⟩, (), ready.ended, _, loop, .inr ⟨by simp, rfl⟩⟩
  rw [ready.organizer]
  rfl

/-- Anyone can have the root closed. -/
theorem root_runs (signs : anyone.canSign = true) : Step rt s (closing anyone key t.organizer true [])
    (drainAll s t.organizer [.vault key, key]) := by
  obtain ⟨seeds, vault, _⟩ := record_fits ready.wf ready.record
  obtain ⟨u, hu, empty⟩ := ready.vault
  refine unpaid_step rfl signs ?_
  simp only [Instruction.run, closeTournament, bind_ok, require_ok, ite_ok, pure_ok]
  refine ⟨t, Ledger.loadTournament_ok.2 ⟨ready.record, seeds⟩, (), rfl, (), ?_, u,
    Ledger.loadVault_ok.2 ⟨hu, vault⟩, (), ready.ended, s, rfl, .inl ⟨trivial, (), rfl, ?_⟩⟩
  · rw [ready.organizer]
    rfl
  · simp only [closeRoot, bind_ok, require_ok, pure_ok]
    exact ⟨(), empty, rfl⟩

end Chunks

section Sweeps

/-- What the first chunks leave of a list that was listed before. -/
theorem Listed.drained (listed : Listed key organizer s children) (wf : Wellformed s) (signer : organizer.canSign = true)
    (kinds : ∀ p ∈ closed, Child key (s.accounts p)) (distinct : closed.Nodup) :
    Listed key organizer (drainAll s organizer closed) children := by
  have apart : organizer ∉ closed := fun mem => child_apart wf (kinds _ mem) signer rfl
  intro p hp
  rw [drainAll_accounts, drainAll_lamports distinct apart]
  by_cases gone : p ∈ closed
  · exact .inr ⟨if_pos gone, ne_of_mem_of_not_mem gone apart⟩
  · rw [if_neg gone, if_neg gone]
    refine (listed p hp).imp_right ?_
    rintro ⟨none_, ne⟩
    exact ⟨by rw [if_neg ne, none_], ne⟩

/-- A sequence of closing calls, each with its caller. -/
def sweep (key organizer : Pubkey) (chunks : List (Pubkey × List Pubkey)) : List Action :=
  chunks.map fun c => closing c.1 key organizer false c.2

/-- Call after call, all listed children that hold lamports are closed. -/
theorem sweep_runs (ready : Ready key t s) (signs : ∀ c ∈ chunks, c.1.canSign = true)
    (listed : ∀ c ∈ chunks, Listed key t.organizer s c.2) : ∃ more closed,
      Run rt s more (drainAll s t.organizer closed) ∧ more.map Prod.snd = sweep key t.organizer chunks ∧ closed.Nodup ∧
      (∀ p, p ∈ closed ↔ (∃ c ∈ chunks, p ∈ c.2) ∧ s.lamports p ≠ 0) ∧ ∀ p ∈ closed, Child key (s.accounts p) := by
  induction chunks generalizing s with
  | nil => exact ⟨[], [], .nil, rfl, .nil, by simp, by simp⟩
  | cons c chunks ih =>
      obtain ⟨first, others⟩ := List.forall_mem_cons.1 listed
      obtain ⟨caller, signs⟩ := List.forall_mem_cons.1 signs
      obtain ⟨closed, step, distinct, members, kinds⟩ := chunk_runs ready caller first
      have apart : t.organizer ∉ closed := fun mem => child_apart ready.wf (kinds _ mem) ready.signer rfl
      obtain ⟨more, closed', run, calls, distinct', members', kinds'⟩ := ih (ready.drained kinds) signs fun c hc =>
        (others c hc).drained ready.wf ready.signer kinds distinct
      have left {p : Pubkey} (ne : p ≠ t.organizer) :
          (drainAll s t.organizer closed).lamports p ≠ 0 ↔ p ∉ closed ∧ s.lamports p ≠ 0 := by
        rw [drainAll_lamports distinct apart]
        by_cases gone : p ∈ closed <;> simp [gone, ne]
      have later {p : Pubkey} (mem : p ∈ closed') : p ∉ closed ∧ s.lamports p ≠ 0 ∧ Child key (s.accounts p) := by
        have child := kinds' p mem
        obtain ⟨gone, held⟩ := (left (child_apart (ready.drained kinds).wf child ready.signer)).1 ((members' p).1 mem).2
        rw [drainAll_accounts, if_neg gone] at child
        exact ⟨gone, held, child⟩
      refine ⟨(s, closing c.1 key t.organizer false c.2) :: more, closed ++ closed', ?_, ?_, ?_, fun p => ?_, ?_⟩
      · rw [← drainAll_append]
        exact (Run.one step).append run
      · rw [List.map_cons, calls, sweep, sweep, List.map_cons]
      · exact List.nodup_append.2 ⟨distinct, distinct', fun p hp q hq same => (later hq).1 (same ▸ hp)⟩
      · rw [List.mem_append, List.exists_mem_cons_iff]
        constructor
        · rintro (mem | mem)
          · obtain ⟨mem, held⟩ := (members p).1 mem
            exact ⟨.inl mem, held⟩
          · exact ⟨.inr ((members' p).1 mem).1, (later mem).2.1⟩
        · rintro ⟨mem | ⟨c', hc', mem⟩, held⟩
          · exact .inl ((members p).2 ⟨mem, held⟩)
          · by_cases gone : p ∈ closed
            · exact .inl gone
            · have child := (others c' hc' p mem).resolve_right fun none_ => held none_.1
              right
              exact (members' p).2 ⟨⟨c', hc', mem⟩, (left (child_apart ready.wf child ready.signer)).2 ⟨gone, held⟩⟩
      · intro p mem
        exact (List.mem_append.1 mem).elim (kinds p) fun mem => (later mem).2.2

/-- Every call is acceptable, and no child of the tournament is forgotten. -/
structure Covers (key organizer : Pubkey) (s : Ledger) (chunks : List (Pubkey × List Pubkey)) : Prop where
  signed : ∀ c ∈ chunks, c.1.canSign = true
  listed : ∀ c ∈ chunks, Listed key organizer s c.2
  all : ∀ p, Child key (s.accounts p) → ∃ c ∈ chunks, p ∈ c.2

/-- All accounts of the tournament are gone, their lamports belong to the
organizer, and nothing else has changed. -/
structure Cleared (key organizer : Pubkey) (homes : Finset Pubkey) (s s' : Ledger) : Prop where
  accounts : ∀ p, s'.accounts p = if p.home = some key then .system else s.accounts p
  lamports : ∀ p, s'.lamports p = if p ∈ homes then 0
    else if p = organizer then s.lamports p + ∑ q ∈ homes, s.lamports q else s.lamports p
  rest : s'.transfers = s.transfers ∧ s'.clock = s.clock

theorem child_of_open (wf : Wellformed s) (home : p.home = some key) (stands : s.accounts p ≠ .system)
    (vault : p ≠ .vault key) (record : p ≠ key) : Child key (s.accounts p) := by
  have fits := wf p
  cases p with
  | key | protocolConfig => cases home
  | tournament => exact absurd (Option.some.inj home) record
  | vault => exact absurd (congrArg Pubkey.vault (Option.some.inj home)) vault
  | participant | matchNode =>
      obtain rfl := Option.some.inj home
      generalize s.accounts _ = a at fits stands
      cases a <;> simp_all [Account.fits, Child]

/-- The open accounts of a tournament are its children and the root. -/
theorem open_iff (ready : Ready key t s) : (p.home = some key ∧ s.accounts p ≠ .system) ↔
    Child key (s.accounts p) ∨ p = .vault key ∨ p = key := by
  constructor
  · rintro ⟨home, stands⟩
    by_cases vault : p = .vault key
    · exact .inr (.inl vault)
    · by_cases record : p = key
      · exact .inr (.inr record)
      · exact .inl (child_of_open ready.wf home stands vault record)
  · rintro (child | rfl | rfl)
    · refine ⟨?_, fun gone => ?_⟩
      · obtain ⟨_, rfl⟩ | ⟨_, rfl⟩ := child_home ready.wf child <;> rfl
      · rw [gone] at child
        exact child.elim
    · obtain ⟨u, hu, _⟩ := ready.vault
      exact ⟨rfl, by simp [Ledger.token?_eq_some.1 hu]⟩
    · exact ⟨home_self ready.isTournament, by simp [Ledger.tournament?_eq_some.1 ready.record]⟩

theorem child_held (reachable : Reachable rt s) (rent : ∀ space, 0 < rt.minimumBalance space)
    (child : Child key (s.accounts p)) : s.lamports p ≠ 0 := by
  have wf := reachable_wellformed reachable
  obtain ⟨start, past, genesis, run⟩ := reachable
  obtain ⟨_, kept⟩ := run_rented genesis run
  have derived : ∀ n, p ≠ .key n := by
    obtain ⟨_, rfl⟩ | ⟨_, rfl⟩ := child_home wf child <;> simp
  have held := (kept p derived).1 fun gone => by
    rw [gone] at child
    exact child.elim
  exact Nat.ne_of_gt (Nat.lt_of_lt_of_le (rent _) held)

/-- A tournament has finitely many open accounts. -/
theorem open_finite (reachable : Reachable rt s) (key : Pubkey) :
    ∃ homes : Finset Pubkey, ∀ p, p ∈ homes ↔ p.home = some key ∧ s.accounts p ≠ .system := by
  obtain ⟨start, past, genesis, run⟩ := reachable
  obtain ⟨_, kept⟩ := run_rented genesis run
  refine ⟨(past.flatMap fun e => Action.openings e.2).toFinset.filter fun p =>
    p.home = some key ∧ (s.accounts p).isSystem = false, fun p => ?_⟩
  rw [Finset.mem_filter, List.mem_toFinset, List.mem_flatMap]
  constructor
  · rintro ⟨_, home, stands⟩
    exact ⟨home, fun gone => by cases stands.symm.trans (congrArg Account.isSystem gone)⟩
  · rintro ⟨home, stands⟩
    refine ⟨(kept p ?_).2 stands, home, ?_⟩
    · rintro n rfl
      cases home
    · by_contra shut
      exact stands (Ledger.isSystem_iff.1 (by simpa using shut))

theorem ready_of_empty (reachable : Reachable rt s) (ht : s.tournament? key = some t) (ended : terminal t.status)
    (empty : vaultAmount s key = 0) (unowned : s.accounts t.organizer = .system) (fit : LamportsFit s) : Ready key t s := by
  have wf := reachable_wellformed reachable
  obtain ⟨start, past, genesis, run⟩ := reachable
  obtain ⟨u, hu⟩ := Option.isSome_iff_exists.1 ((run_rented genesis run).1 key (by simp [ht]))
  refine ⟨wf, ht, ended, ⟨u, hu, ?_⟩, unowned, fit⟩
  simpa [vaultAmount, hu] using empty

/-- The calls of a sweep and the last one leave nothing behind. -/
theorem cleared_of_sweep {homes : Finset Pubkey} (ready : Ready key t s) (distinct : closed.Nodup)
    (children : ∀ p, p ∈ closed ↔ Child key (s.accounts p))
    (listed : ∀ p, p ∈ homes ↔ p.home = some key ∧ s.accounts p ≠ .system) :
    Cleared key t.organizer homes s (drainAll s t.organizer (closed ++ [.vault key, key])) := by
  have members p : p ∈ closed ++ [.vault key, key] ↔ p.home = some key ∧ s.accounts p ≠ .system := by
    rw [open_iff ready, List.mem_append, children, List.mem_pair]
  have apart : t.organizer ∉ closed ++ [.vault key, key] := by
    rw [members]
    exact fun h => h.2 ready.organizer
  have whole : (closed ++ [.vault key, key]).Nodup := by
    have ne : Pubkey.vault key ≠ key := (ne_of_isTournament ready.isTournament rfl).symm
    refine List.nodup_append.2 ⟨distinct, by simpa using ne, ?_⟩
    rintro p hp q hq rfl
    obtain ⟨vault, record⟩ := ready.not_root ((children p).1 hp)
    exact (List.mem_pair.1 hq).elim vault record
  have same : homes = (closed ++ [.vault key, key]).toFinset := by
    ext p
    rw [listed, List.mem_toFinset, members]
  refine ⟨fun p => ?_, fun p => ?_, drainAll_transfers⟩
  · rw [drainAll_accounts]
    by_cases home : p.home = some key
    · rw [if_pos home]
      split
      · rfl
      · rename_i shut
        by_contra stands
        exact shut ((members p).2 ⟨home, stands⟩)
    · rw [if_neg home, if_neg fun mem => home ((members p).1 mem).1]
  · rw [drainAll_lamports whole apart, same, List.sum_toFinset _ whole]
    simp only [List.mem_toFinset]
    split
    · rfl
    · split
      · subst p
        rfl
      · rfl

/-- In any state a tournament that has ended with an empty vault can be wound
up by anyone: any sequence of closing calls that lists every child, in chunks
of any size and order and with any repetitions, and then a call that closes the
root, succeed and leave no account behind. The organizer gets all lamports. -/
theorem wound_up (reachable : Reachable rt s) (ht : s.tournament? key = some t) (ended : terminal t.status)
    (empty : vaultAmount s key = 0) (unowned : s.accounts t.organizer = .system) (fit : LamportsFit s)
    (rent : ∀ space, 0 < rt.minimumBalance space) (signs : anyone.canSign = true) :
    ∃ homes : Finset Pubkey, (∀ p, p ∈ homes ↔ p.home = some key ∧ s.accounts p ≠ .system) ∧
      (∃ chunks, Covers key t.organizer s chunks) ∧
      ∀ chunks, Covers key t.organizer s chunks → ∃ more s', Run rt s more s' ∧
        more.map Prod.snd = sweep key t.organizer chunks ++ [closing anyone key t.organizer true []] ∧
        Cleared key t.organizer homes s s' := by
  have ready := ready_of_empty reachable ht ended empty unowned fit
  obtain ⟨homes, listed⟩ := open_finite reachable key
  refine ⟨homes, listed, ⟨[(anyone, homes.toList.filter fun p => p ≠ .vault key ∧ p ≠ key)], ?_⟩, fun chunks covers => ?_⟩
  · refine ⟨List.forall_mem_singleton.2 signs, List.forall_mem_singleton.2 fun p mem => ?_, fun p child => ?_⟩
    · obtain ⟨mem, apart⟩ := List.mem_filter.1 mem
      obtain ⟨vault, record⟩ : p ≠ .vault key ∧ p ≠ key := by simpa using apart
      obtain ⟨home, stands⟩ := (listed p).1 (Finset.mem_toList.1 mem)
      exact .inl (child_of_open ready.wf home stands vault record)
    · refine ⟨_, List.mem_singleton_self _, List.mem_filter.2 ⟨Finset.mem_toList.2 ?_, by simpa using ready.not_root child⟩⟩
      exact (listed p).2 ((open_iff ready).2 (.inl child))
  · obtain ⟨more, closed, run, calls, distinct, members, kinds⟩ := sweep_runs ready covers.signed covers.listed
    have last : Step rt _ (closing anyone key t.organizer true []) _ := root_runs (ready.drained kinds) signs
    rw [drainAll_append] at last
    refine ⟨_, _, run.snoc last, ?_, cleared_of_sweep ready distinct (fun p => ⟨kinds p, fun child => ?_⟩) listed⟩
    · rw [List.map_append, calls, List.map_singleton]
    · exact (members p).2 ⟨covers.all p child, child_held reachable rent child⟩

end Sweeps

section Sample

/-- Nine wallets of one SOL each. -/
def wallets : Finset Pubkey := {.key 1, .key 2, .key 3, .key 4, .key 5, .key 6, .key 7, .key 8, .key 9}

def thriftyGenesis : Ledger := { sampleGenesis with lamports := fun p => if p ∈ wallets then 1000000000 else 0 }

theorem thriftyGenesis_genesis : Genesis thriftyGenesis :=
  ⟨sampleGenesis_genesis.derived, sampleGenesis_genesis.outside, rfl⟩

theorem thriftyGenesis_fit : LamportsFit thriftyGenesis := fun S =>
  calc ∑ p ∈ S, thriftyGenesis.lamports p = ∑ p ∈ S ∩ wallets, 1000000000 := Finset.sum_ite_mem S wallets fun _ => 1000000000
    _ ≤ ∑ p ∈ wallets, 1000000000 := Finset.sum_le_sum_of_subset Finset.inter_subset_right
    _ ≤ u64Max := by decide

/-- A final that was conceded, and a vault that paid out. -/
def endedScript : List Action := proposedFinal ++ [concede sampleTournament.key]

def endedState : Ledger := after sampleRuntime thriftyGenesis endedScript

theorem endedState_fit : LamportsFit endedState := by
  have run : Run sampleRuntime thriftyGenesis _ endedState := script_run thriftyGenesis endedScript
  have conserved := run_conserved (genesis_wellformed thriftyGenesis_genesis) (fun wf h => (call_balanced wf h).2) run
  refine conserved.bounded (fun e he p => ?_) fun S => ?_
  · obtain ⟨m, b⟩ := e
    have mem : b ∈ endedScript := mem_log he
    simp only [endedScript, proposedFinal, proposedBy3, twoRevealed, joinAs, openFinal, startWith, openTreasury, sampleInit,
      concede, List.cons_append, List.nil_append, List.mem_cons, List.not_mem_nil, or_false] at mem
    rcases mem with rfl | rfl | rfl | rfl | rfl | rfl | rfl | rfl | rfl | rfl
    case inr.inr.inr.inr.inr.inr.inr.inl => exact Nat.sub_self (m.lamports p)
    all_goals rfl
  · exact thriftyGenesis_fit S

theorem endedState_wound_up : ∃ homes : Finset Pubkey,
    (∀ p, p ∈ homes ↔ p.home = some sampleTournament.key ∧ endedState.accounts p ≠ .system) ∧
    (∃ chunks, Covers sampleTournament.key (.key 1) endedState chunks) ∧
    ∀ chunks, Covers sampleTournament.key (.key 1) endedState chunks → ∃ more s', Run sampleRuntime endedState more s' ∧
      more.map Prod.snd = sweep sampleTournament.key (.key 1) chunks ++
        [closing (.key 7) sampleTournament.key (.key 1) true []] ∧
      Cleared sampleTournament.key (.key 1) homes endedState s' :=
  wound_up (t := (endedState.tournament? sampleTournament.key).get rfl) (script_reachable thriftyGenesis_genesis _)
    rfl (by decide) rfl rfl endedState_fit (fun _ => by simp [sampleRuntime]) rfl

end Sample

end BracketChain.Closing
