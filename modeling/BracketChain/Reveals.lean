import BracketChain.Scripts
import Mathlib.Data.List.Induction

namespace BracketChain.Reveals

open Outcome Keys Records Accounts Registration Start Settlement Envelope Refunds Program Runs Layout View Lifecycle
  Refinement Lives Scripts

/-- The account at `p` yields its value in this slot. -/
def Readable (rt : Runtime) (s : Ledger) (p : Pubkey) : Prop :=
  ∃ owner data getValue value, s.loadForeign p = some (owner, data) ∧ ownedBySwitchboard owner ∧
    rt.parseRandomness data = some getValue ∧ getValue s.clock.slot = some value

/-- The call binds a randomness account to the tournament. -/
def Binds (key : Pubkey) (b : Action) : Prop := ∃ d, b = .call (.requestSeed d) ∧ d.tournament = key

/-- The last `request_seed` of a history. -/
def BoundBy (key : Pubkey) (past : History) (q : Ledger) (c : RequestSeed) : Prop :=
  ∃ before after, past = before ++ (q, .call (.requestSeed c)) :: after ∧ c.tournament = key ∧
    ∀ e ∈ after, ¬ Binds key e.2

def Unbound (key : Pubkey) (past : History) : Prop := ∀ e ∈ past, ¬ Binds key e.2

/-- Slots are counted upwards. -/
def SlotsForward (past : History) (s : Ledger) : Prop :=
  (past.map Prod.fst ++ [s]).Pairwise fun q q' => q.clock.slot ≤ q'.clock.slot

instance (past : History) (s : Ledger) : Decidable (SlotsForward past s) :=
  inferInstanceAs (Decidable (List.Pairwise _ _))

/-- The reveal reads the account of the last binding, in a later slot, and the
account could not be read when it was bound. -/
def Committed (rt : Runtime) (key : Pubkey) (before : History) (q : Ledger) (c : RevealSeed) : Prop :=
  ∃ t q₀ d, q.tournament? key = some t ∧ BoundBy key before q₀ d ∧ c.randomnessAccount = d.randomnessAccount ∧
    t.vrfRandomnessAccount = d.randomnessAccount ∧ t.vrfCommitSlot = q₀.clock.slot ∧
    t.vrfCommitSlot < q.clock.slot ∧ ¬ Readable rt q₀ d.randomnessAccount

/-- Every reveal that succeeds at a moment of the run is committed. -/
def RevealsCommitted (rt : Runtime) (key : Pubkey) (past : History) (s : Ledger) : Prop :=
  ∀ before q, Moment past s before q → ∀ c q', c.tournament = key → Step rt q (.call (.revealSeed c)) q' →
    Committed rt key before q c

/-- No account is bound whose value is there already. -/
def BindsUnread (rt : Runtime) (key : Pubkey) (past : History) : Prop :=
  ∀ q₀ d, (q₀, .call (.requestSeed d)) ∈ past → d.tournament = key → ¬ Readable rt q₀ d.randomnessAccount

/-- Switchboard brings no value to an account in the slot of its binding, and
none to the zero address that a tournament has before. -/
def Silent (rt : Runtime) (key : Pubkey) (before : History) (q : Ledger) : Prop :=
  (∀ q₀ d, BoundBy key before q₀ d → q₀.clock.slot = q.clock.slot → ¬ Readable rt q d.randomnessAccount) ∧
    (Unbound key before → ¬ Readable rt q default)

/-- So it is for as long as the seed is open. -/
def StaysSilent (rt : Runtime) (key : Pubkey) (past : History) (s : Ledger) : Prop :=
  ∀ before q, Moment past s before q → ∀ t, q.tournament? key = some t → t.seedRevealed = false →
    Silent rt key before q

variable {rt : Runtime} {key : Pubkey} {a : CreateTournament} {born start s s' : Ledger} {past before : History}

section Bindings

variable {q q' : Ledger} {b : Action} {c c' : RequestSeed}

theorem boundBy_snoc : BoundBy key (past ++ [(s, b)]) q c ↔
    (q = s ∧ b = .call (.requestSeed c) ∧ c.tournament = key) ∨ (BoundBy key past q c ∧ ¬ Binds key b) := by
  constructor
  · rintro ⟨before, after, split, home, last⟩
    rcases List.eq_nil_or_concat after with rfl | ⟨after, e, rfl⟩
    · obtain ⟨_, same⟩ := List.append_inj' split rfl
      obtain ⟨rfl, rfl⟩ : s = q ∧ b = .call (.requestSeed c) := by simpa using same
      exact .inl ⟨rfl, rfl, home⟩
    · rw [List.concat_eq_append, ← List.cons_append, ← List.append_assoc] at split
      obtain ⟨rfl, same⟩ := List.append_inj' split rfl
      obtain rfl : (s, b) = e := by simpa using same
      rw [List.concat_eq_append] at last
      have others := List.forall_mem_append.1 last
      exact .inr ⟨⟨before, after, rfl, home, others.1⟩, others.2 (s, b) List.mem_cons_self⟩
  · rintro (⟨rfl, rfl, home⟩ | ⟨⟨before, after, rfl, home, last⟩, other⟩)
    · exact ⟨past, [], rfl, home, by simp⟩
    · refine ⟨before, after ++ [(s, b)], by simp, home, fun e he => ?_⟩
      rcases List.mem_append.1 he with he | he
      · exact last e he
      · exact List.mem_singleton.1 he ▸ other

theorem boundBy_unique (h : BoundBy key past q c) (h' : BoundBy key past q' c') : q = q' ∧ c = c' := by
  induction past using List.reverseRecOn with
  | nil =>
      obtain ⟨before, after, split, _⟩ := h
      simp at split
  | append_singleton past e ih =>
      obtain ⟨s, b⟩ := e
      rcases boundBy_snoc.1 h with ⟨rfl, rfl, home⟩ | ⟨h, other⟩ <;>
        rcases boundBy_snoc.1 h' with ⟨rfl, call, home'⟩ | ⟨h', other'⟩
      · exact ⟨rfl, Instruction.requestSeed.inj (Action.call.inj call)⟩
      · exact absurd ⟨c, rfl, home⟩ other'
      · exact absurd ⟨c', call, home'⟩ other
      · exact ih h h'

theorem not_unbound (h : BoundBy key past q c) : ¬ Unbound key past := by
  obtain ⟨before, after, rfl, home, _⟩ := h
  exact fun none_ => none_ _ (List.mem_append_right _ List.mem_cons_self) ⟨c, rfl, home⟩

theorem SlotsForward.le (forward : SlotsForward past s) (moment : Moment past s before q')
    (bound : BoundBy key before q c) : q.clock.slot ≤ q'.clock.slot := by
  have mem : q ∈ before.map Prod.fst := by
    obtain ⟨first, rest, rfl, _⟩ := bound
    simp
  rcases moment with ⟨rfl, rfl⟩ | ⟨b, after, rfl⟩
  · exact (List.pairwise_append.1 forward).2.2 q mem q' List.mem_cons_self
  · rw [SlotsForward, List.map_append, List.append_assoc] at forward
    exact (List.pairwise_append.1 forward).2.2 q mem q' List.mem_cons_self

end Bindings

/-- What a step leaves as the binding in the record. -/
def binding (key : Pubkey) (bound : Pubkey × Nat) (e : Ledger × Action) : Pubkey × Nat :=
  match e.2 with
  | .call (.requestSeed c) => if c.tournament = key then (c.randomnessAccount, e.1.clock.slot) else bound
  | _ => bound

theorem binding_other {b : Action} (h : ¬ Binds key b) (bound : Pubkey × Nat) : binding key bound (s, b) = bound := by
  unfold binding
  split
  · rename_i c call
    exact if_neg fun home => h ⟨c, call, home⟩
  · rfl

theorem effect_binding {b : Action} {v v' : TournamentView} {t t' : Tournament}
    (h : Effect rt key s.clock b v v') (ht : v.record = some t) (ht' : v'.record = some t') :
    (t'.vrfRandomnessAccount, t'.vrfCommitSlot) = binding key (t.vrfRandomnessAccount, t.vrfCommitSlot) (s, b) := by
  have same {t₁ : Tournament} (h₁ : v.record = some t₁) : t₁ = t := Option.some.inj (h₁.symm.trans ht)
  cases h with
  | others _ other =>
      obtain rfl := same ht'
      rw [binding_other]
      rintro ⟨d, rfl, rfl⟩
      exact other rfl
  | create _ _ _ unopened => simp [ht] at unopened
  | requestSeed c key_eq record =>
      obtain rfl := Option.some.inj ht'
      exact (if_pos key_eq).symm
  | join _ _ _ _ record | revealSeed _ _ _ record | partialCancel _ _ record =>
      obtain rfl := same record
      obtain rfl := Option.some.inj ht'
      rfl
  | start _ _ record _ opens _ tallied bound =>
      obtain rfl := same record
      obtain rfl := Option.some.inj ht'
      rw [tally_ok bound tallied]
      rcases opens with ⟨_, _, _, _, _, _, rfl⟩ | ⟨_, rfl⟩ <;> rfl
  | edit ix _ _ call =>
      obtain rfl := same ht'
      cases ix <;> first | rfl | cases call
  | advance ix _ _ _ finalizes =>
      obtain rfl := same finalizes.record
      obtain rfl := Option.some.inj ht'
      have call := finalizes.call
      cases ix <;> first | rfl | cases call
  | conclude ix _ _ _ _ finalizes =>
      obtain rfl := same finalizes.record
      obtain rfl := Option.some.inj ht'
      have call := finalizes.call
      cases ix <;> first | rfl | cases call
  | refund ix _ _ _ record _ refunding =>
      obtain rfl := same record
      obtain rfl := Option.some.inj ht'
      rcases refunding_cases refunding with ⟨rfl, _⟩ | ⟨rfl, _⟩ <;> split <;>
        cases ix <;> first | rfl | cases refunding
  | closeChildren =>
      obtain rfl := same ht'
      rfl
  | closeRoot => cases ht'

/-- The record holds what the last binding wrote, or nothing was bound. -/
theorem life_binding (life : Life rt a born start past s) : ∀ t, s.tournament? a.key = some t →
    (∃ q d, BoundBy a.key past q d ∧ t.vrfRandomnessAccount = d.randomnessAccount ∧ t.vrfCommitSlot = q.clock.slot) ∨
      (Unbound a.key past ∧ t.vrfRandomnessAccount = default) := by
  refine life.invariant (P := fun past s => ∀ t, s.tournament? a.key = some t →
    (∃ q d, BoundBy a.key past q d ∧ t.vrfRandomnessAccount = d.randomnessAccount ∧ t.vrfCommitSlot = q.clock.slot) ∨
      (Unbound a.key past ∧ t.vrfRandomnessAccount = default)) ?_ ?_
  · intro t ht
    obtain rfl := Option.some.inj (ht.symm.trans life.start_record)
    exact .inr ⟨by simp [Unbound], rfl⟩
  · intro past s b s' earlier ih step effect later t' ht'
    obtain ⟨t, ht⟩ := earlier.record
    have wrote := effect_binding effect ht ht'
    by_cases own : Binds a.key b
    · obtain ⟨d, rfl, home⟩ := own
      exact .inl ⟨s, d, boundBy_snoc.2 (.inl ⟨rfl, rfl, home⟩), Prod.mk.inj (wrote.trans (if_pos home))⟩
    · rw [binding_other own, Prod.mk.injEq] at wrote
      rw [wrote.1, wrote.2]
      rcases ih t ht with ⟨q, d, bound, holds⟩ | ⟨none_, zero⟩
      · exact .inl ⟨q, d, boundBy_snoc.2 (.inr ⟨bound, own⟩), holds⟩
      · refine .inr ⟨fun e he => ?_, zero⟩
        rcases List.mem_append.1 he with he | he
        · exact none_ e he
        · exact List.mem_singleton.1 he ▸ own

/-- A reveal succeeds exactly on an open seed, for the bound account and while
that is readable. -/
theorem reveal_succeeds {c : RevealSeed} (wf : Wellformed s) : (∃ s', Step rt s (.call (.revealSeed c)) s') ↔
    c.payer.canSign = true ∧ ∃ t, s.tournament? c.tournament = some t ∧ c.randomnessAccount = t.vrfRandomnessAccount ∧
      t.seedRevealed = false ∧ Readable rt s c.randomnessAccount := by
  constructor
  · rintro ⟨s', step⟩
    obtain ⟨signer, _, ran⟩ := call_ran step
    simp only [Instruction.run, revealSeed, bind_ok, require_ok, orThrow_ok, pure_ok, Ledger.loadTournament_ok] at ran
    obtain ⟨t, ⟨ht, _⟩, _, account, _, open_, ⟨owner, data⟩, held, _, owned, getValue, parsed, value, read, _⟩ := ran
    exact ⟨signer, t, ht, account, open_, owner, data, getValue, value, held, owned, parsed, read⟩
  · rintro ⟨signer, t, ht, account, open_, owner, data, getValue, value, held, owned, parsed, read⟩
    refine ⟨s.setAccount c.tournament (.tournament { t with seedHash := value, seedRevealed := true }),
      unpaid_step rfl signer ?_⟩
    simp only [Instruction.run, revealSeed, bind_ok, require_ok, orThrow_ok, pure_ok, Ledger.loadTournament_ok]
    exact ⟨t, ⟨ht, (record_fits wf ht).1⟩, (), account, (), open_, (owner, data), held, (), owned, getValue, parsed, value,
      read, rfl⟩

/-- A binding leaves its account, the slot and the open seed. -/
theorem request_leaves {d : RequestSeed} (step : Step rt s (.call (.requestSeed d)) s') :
    (∃ t, s'.tournament? d.tournament = some t ∧ t.seedRevealed = false) ∧ s'.clock = s.clock ∧
      (Readable rt s d.randomnessAccount → Readable rt s' d.randomnessAccount) := by
  obtain ⟨_, _, ran⟩ := call_ran step
  simp only [Instruction.run, requestSeed, bind_ok, require_ok, orThrow_ok, pure_ok, Ledger.loadTournament_ok] at ran
  obtain ⟨t, ⟨ht, _⟩, _, _, _, _, _, _, _, open_, ⟨owner, data⟩, held, _, _, _, _, rfl⟩ := ran
  have apart : d.randomnessAccount ≠ d.tournament := by
    intro same
    rw [Ledger.loadForeign, same, Ledger.tournament?_eq_some.1 ht] at held
    cases held
  refine ⟨⟨{ t with vrfRandomnessAccount := d.randomnessAccount, vrfCommitSlot := s.clock.slot }, ?_, open_⟩, rfl, ?_⟩
  · rw [Ledger.tournament?_eq_some, Ledger.setAccount_accounts, if_pos rfl]
  rintro ⟨owner, data, getValue, value, held, rest⟩
  refine ⟨owner, data, getValue, value, ?_, rest⟩
  rwa [Ledger.loadForeign, Ledger.setAccount_accounts, if_neg apart]

/-- Silence at the moment after a binding says that its account was unread. -/
theorem silent_unread (life : Life rt a born start past s) (silent : StaysSilent rt a.key past s) :
    BindsUnread rt a.key past := by
  intro q₀ d mem home readable
  obtain ⟨before, after, split⟩ := List.append_of_mem mem
  obtain ⟨q, step, moment⟩ := life.run.next_moment split
  obtain ⟨⟨t, ht, open_⟩, clock, still⟩ := request_leaves step
  rw [home] at ht
  have bound : BoundBy a.key (before ++ [(q₀, .call (.requestSeed d))]) q₀ d := boundBy_snoc.2 (.inl ⟨rfl, rfl, home⟩)
  exact (silent _ q moment t ht open_).1 q₀ d bound (congrArg Clock.slot clock.symm) (still readable)

theorem BoundBy.mem {q : Ledger} {d : RequestSeed} (bound : BoundBy key past q d) :
    (q, .call (.requestSeed d)) ∈ past ∧ d.tournament = key := by
  obtain ⟨_, _, rfl, home, _⟩ := bound
  exact ⟨List.mem_append_right _ List.mem_cons_self, home⟩

theorem silent_committed (life : Life rt a born start past s) (forward : SlotsForward past s)
    (silent : StaysSilent rt a.key past s) : RevealsCommitted rt a.key past s := by
  intro before q moment c q' home step
  have here := life.at_moment moment
  obtain ⟨_, t, ht, account, open_, readable⟩ := (reveal_succeeds here.wf).1 ⟨q', step⟩
  rw [home] at ht
  obtain ⟨apart, unbound⟩ := silent before q moment t ht open_
  rcases life_binding here t ht with ⟨q₀, d, bound, same, slot⟩ | ⟨none_, zero⟩
  · rw [account, same] at readable
    have later : q₀.clock.slot < q.clock.slot :=
      lt_of_le_of_ne (forward.le moment bound) fun now => apart q₀ d bound now readable
    obtain ⟨mem, home'⟩ := bound.mem
    have unread := silent_unread life silent q₀ d (moment.mem mem) home'
    exact ⟨t, q₀, d, ht, bound, account.trans same, same, slot, slot ▸ later, unread⟩
  · rw [account, zero] at readable
    exact absurd readable (unbound none_)

theorem committed_silent (life : Life rt a born start past s) (committed : RevealsCommitted rt a.key past s) :
    StaysSilent rt a.key past s := by
  intro before q moment t ht open_
  have here := life.at_moment moment
  -- whoever asks for it reveals the seed
  have reveals (readable : Readable rt q t.vrfRandomnessAccount) :
      Committed rt a.key before q ⟨.key 1, a.key, t.vrfRandomnessAccount⟩ := by
    obtain ⟨q', step⟩ := (reveal_succeeds (c := ⟨.key 1, a.key, t.vrfRandomnessAccount⟩) here.wf).2
      ⟨rfl, t, ht, rfl, open_, readable⟩
    exact committed before q moment _ q' rfl step
  constructor
  · intro q₀ d bound now readable
    rcases life_binding here t ht with ⟨q₁, d₁, bound₁, same, _⟩ | ⟨none_, _⟩
    · obtain ⟨rfl, rfl⟩ := boundBy_unique bound bound₁
      rw [← same] at readable
      obtain ⟨t', q₂, d₂, ht', bound₂, _, _, slot, later, _⟩ := reveals readable
      obtain ⟨rfl, rfl⟩ := boundBy_unique bound bound₂
      omega
    · exact not_unbound bound none_
  · intro none_ readable
    rcases life_binding here t ht with ⟨q₁, d₁, bound₁, _⟩ | ⟨_, zero⟩
    · exact not_unbound bound₁ none_
    · rw [← zero] at readable
      obtain ⟨_, q₂, d₂, _, bound₂, _⟩ := reveals readable
      exact not_unbound bound₂ none_

/-- In every run, whatever reveal succeeds at any moment is committed, and no
account is bound whose value is there already, exactly if no account becomes
readable in the slot of its binding. -/
theorem reveals_iff (life : Life rt a born start past s) (forward : SlotsForward past s) :
    RevealsCommitted rt a.key past s ∧ BindsUnread rt a.key past ↔ StaysSilent rt a.key past s :=
  ⟨fun committed => committed_silent life committed.1,
    fun silent => ⟨silent_committed life forward silent, silent_unread life silent⟩⟩

section Sample

/-- The account at key 200 is revealed in slot 6. -/
def slotRuntime : Runtime :=
  { sampleRuntime with parseRandomness := fun _ => some fun slot => if slot = 6 then some zeroBytes else none }

def slotBorn : Ledger := after slotRuntime sampleGenesis [sampleInit]

def request : Action := .call (.requestSeed ⟨.key 1, sampleTournament.key, .key 200⟩)

def reveal : Action := .call (.revealSeed ⟨.key 5, sampleTournament.key, .key 200⟩)

def slot6 : Action := .outside (.clock ⟨12, 6⟩)

abbrev SlotLife (bs : List Action) : Prop :=
  Life slotRuntime sampleTournament slotBorn (created slotRuntime sampleTournament slotBorn)
    (log slotRuntime (created slotRuntime sampleTournament slotBorn) bs)
    (after slotRuntime (created slotRuntime sampleTournament slotBorn) bs)

theorem slotLife (bs : List Action) (kept : ((log slotRuntime (created slotRuntime sampleTournament slotBorn) bs).all
      fun e => (e.1.tournament? sampleTournament.key).isSome) = true)
    (last : ((after slotRuntime (created slotRuntime sampleTournament slotBorn) bs).tournament?
      sampleTournament.key).isSome = true) : SlotLife bs :=
  script_life (script_reachable sampleGenesis_genesis _) rfl kept last

theorem slotRuntime_readable {s : Ledger} {p : Pubkey} (readable : Readable slotRuntime s p) :
    s.clock.slot = 6 ∧ s.loadForeign p ≠ none := by
  obtain ⟨owner, data, getValue, value, held, _, parsed, read⟩ := readable
  obtain rfl := Option.some.inj parsed
  refine ⟨?_, by simp [held]⟩
  by_contra other
  simp [other] at read

def isRequest : Action → Bool
  | .call (.requestSeed _) => true
  | _ => false

/-- The account is bound before the slot of its reveal. -/
theorem nextSlot_committed : ∃ past s t,
    Life slotRuntime sampleTournament slotBorn (created slotRuntime sampleTournament slotBorn) past s ∧
    s.tournament? sampleTournament.key = some t ∧ t.seedRevealed = true ∧
    RevealsCommitted slotRuntime sampleTournament.key past s ∧ BindsUnread slotRuntime sampleTournament.key past := by
  have life : SlotLife [request, slot6, reveal] := slotLife _ (by decide) (by decide)
  refine ⟨_, _, _, life, rfl, rfl, (reveals_iff life (by decide)).2 fun before q moment t ht open_ => ⟨?_, ?_⟩⟩
  · intro q₀ d bound now readable
    have early : ((log slotRuntime (created slotRuntime sampleTournament slotBorn) [request, slot6, reveal]).all
        fun e => !(isRequest e.2 && e.1.clock.slot == 6)) = true := by decide
    have bound_ := List.all_eq_true.1 early _ (moment.mem bound.mem.1)
    have slot : q₀.clock.slot = 6 := now.trans (slotRuntime_readable readable).1
    simp [isRequest, slot] at bound_
  · intro _ readable
    have none_ : ((log slotRuntime (created slotRuntime sampleTournament slotBorn) [request, slot6, reveal]).all
        fun e => (e.1.loadForeign default).isNone) = true := by decide
    have held := (slotRuntime_readable readable).2
    rcases moment.visits with rfl | ⟨b, entry⟩
    · exact held rfl
    · exact held (Option.isNone_iff_eq_none.1 (List.all_eq_true.1 none_ _ entry))

/-- The account is revealed, bound and read in one slot. -/
theorem sameSlot_not_committed : ∃ past s t q,
    Life slotRuntime sampleTournament slotBorn (created slotRuntime sampleTournament slotBorn) past s ∧
    SlotsForward past s ∧ s.tournament? sampleTournament.key = some t ∧ t.seedRevealed = true ∧
    t.vrfCommitSlot = 6 ∧ (q, request) ∈ past ∧ Readable slotRuntime q (.key 200) ∧
    (∃ q', (q', reveal) ∈ past ∧ q'.clock.slot = 6) ∧
    ¬ RevealsCommitted slotRuntime sampleTournament.key past s ∧ ¬ BindsUnread slotRuntime sampleTournament.key past := by
  have readable : Readable slotRuntime (after slotRuntime (created slotRuntime sampleTournament slotBorn) [slot6])
      (.key 200) := ⟨_, _, _, _, rfl, by decide, rfl, rfl⟩
  refine ⟨_, _, _, _, slotLife [slot6, request, reveal] (by decide) (by decide), by decide, rfl, rfl, rfl,
    List.mem_of_getElem? (i := 1) rfl, readable, ⟨_, List.mem_of_getElem? (i := 2) rfl, rfl⟩, fun committed => ?_,
    fun unread => ?_⟩
  · obtain ⟨t, q₀, d, ht, _, _, _, _, later, _⟩ := committed
      (log slotRuntime (created slotRuntime sampleTournament slotBorn) [slot6, request]) _ (.inr ⟨reveal, [], rfl⟩)
      ⟨.key 5, sampleTournament.key, .key 200⟩ _ rfl rfl
    obtain rfl := Option.some.inj ht
    exact absurd later (by decide)
  · exact unread _ _ (List.mem_of_getElem? (i := 1) rfl) rfl readable

end Sample

end BracketChain.Reveals
