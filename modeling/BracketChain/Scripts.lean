import BracketChain.Lives
import Mathlib.Order.Monotone.Defs

namespace BracketChain.Scripts

open Outcome Keys Records Accounts Registration Start Settlement Envelope Refunds Program Runs Refinement
  Lives

variable {rt : Runtime} {s : Ledger}

/-- The ledger after a list of actions. A failed one changes nothing. -/
def after (rt : Runtime) : Ledger → List Action → Ledger
  | s, [] => s
  | s, b :: bs =>
      match b.run rt s with
      | .ok t => after rt t bs
      | .error _ => after rt s bs

/-- The successful actions of a list, each with the ledger it was taken in. -/
def log (rt : Runtime) : Ledger → List Action → History
  | _, [] => []
  | s, b :: bs =>
      match b.run rt s with
      | .ok t => (s, b) :: log rt t bs
      | .error _ => log rt s bs

theorem mem_log {s : Ledger} {bs : List Action} {e : Ledger × Action} (h : e ∈ log rt s bs) : e.2 ∈ bs := by
  induction bs generalizing s with
  | nil => simp [log] at h
  | cons b bs ih =>
      simp only [log] at h
      split at h
      · rcases List.mem_cons.1 h with rfl | h
        · exact List.mem_cons_self
        · exact List.mem_cons_of_mem b (ih h)
      · exact List.mem_cons_of_mem b (ih h)

theorem script_run (s : Ledger) (bs : List Action) : Run rt s (log rt s bs) (after rt s bs) := by
  induction bs generalizing s with
  | nil => exact .nil
  | cons b bs ih =>
      cases h : b.run rt s with
      | ok t => simpa [log, after, h] using (Run.one h).append (ih t)
      | error e => simpa [log, after, h] using ih s

theorem script_visits (s : Ledger) (bs cs : List Action) :
    Visits (log rt s (bs ++ cs)) (after rt s (bs ++ cs)) (after rt s bs) := by
  have first (s : Ledger) (bs : List Action) : Visits (log rt s bs) (after rt s bs) s := by
    induction bs with
    | nil => exact .inl rfl
    | cons b bs ih =>
        cases h : b.run rt s with
        | ok t => exact .inr ⟨b, by simp [log, h]⟩
        | error e => simpa [log, after, h] using ih
  induction bs generalizing s with
  | nil => exact first s cs
  | cons b bs ih =>
      cases h : b.run rt s with
      | ok t =>
          rcases ih t with ht | ⟨c, hc⟩
          · exact .inl (by simpa [after, h] using ht)
          · exact .inr ⟨c, by simp [log, after, h, hc]⟩
      | error e => simpa [log, after, h] using ih s

theorem script_reachable (genesis : Genesis s) (bs : List Action) : Reachable rt (after rt s bs) :=
  ⟨s, _, genesis, script_run s bs⟩

def created (rt : Runtime) (a : CreateTournament) (s : Ledger) : Ledger :=
  after rt s [.call (.createTournament a)]

theorem script_course {key : Pubkey} {start : Ledger} (reachable : Reachable rt start) (bs : List Action)
    (kept : ((log rt start bs).all fun e => (e.1.tournament? key).isSome) = true)
    (last : ((after rt start bs).tournament? key).isSome = true) :
    Course rt key start (log rt start bs) (after rt start bs) := by
  refine ⟨reachable, script_run _ _, ?_⟩
  rintro q (rfl | ⟨b, hb⟩)
  · exact last
  · exact List.all_eq_true.1 kept (q, b) hb

theorem created_step {born : Ledger} {a : CreateTournament}
    (made : (log rt born [.call (.createTournament a)]).length = 1) :
    Step rt born (.call (.createTournament a)) (created rt a born) := by
  cases h : Action.run rt (.call (.createTournament a)) born with
  | ok t => simp only [Step, created, after, h]
  | error e => simp only [log, h, List.length_nil, Nat.zero_ne_one] at made

theorem script_life {born : Ledger} {a : CreateTournament} {bs : List Action} (reachable : Reachable rt born)
    (made : (log rt born [.call (.createTournament a)]).length = 1)
    (kept : ((log rt (created rt a born) bs).all fun e => (e.1.tournament? a.key).isSome) = true)
    (last : ((after rt (created rt a born) bs).tournament? a.key).isSome = true) :
    Life rt a born (created rt a born) (log rt (created rt a born) bs) (after rt (created rt a born) bs) :=
  have course := script_course (reachable_run reachable (script_run born [.call (.createTournament a)])) bs kept last
  ⟨reachable, created_step made, course.run, course.kept⟩

section Sample

/-- A runtime with the rent of the main net, whose seeds are all zero and whose
feeds never parse. -/
def sampleRuntime : Runtime where
  offCurve _ := true
  keyBytes _ := []
  keccak _ := zeroBytes
  minimumBalance space := (space + 128) * 6960
  parseRandomness _ := some fun _ => some zeroBytes
  parseFeed _ := none

theorem sampleRuntime_grows : Monotone sampleRuntime.minimumBalance := fun _ _ h =>
  Nat.mul_le_mul_right _ (Nat.add_le_add_right h _)

/-- Key 100 is a mint, keys 10 to 14 are the token accounts of keys 1 to 5,
and key 200 belongs to Switchboard. -/
def sampleGenesis : Ledger where
  accounts
    | .key 100 => .mint
    | .key 10 => .token ⟨.key 100, .key 1, 1000, false⟩
    | .key 11 => .token ⟨.key 100, .key 2, 1000, false⟩
    | .key 12 => .token ⟨.key 100, .key 3, 1000, false⟩
    | .key 13 => .token ⟨.key 100, .key 4, 1000, false⟩
    | .key 14 => .token ⟨.key 100, .key 5, 1000, false⟩
    | .key 200 => .foreign switchboardOnDemandDevnet []
    | _ => .system
  lamports
    | .key _ => 1000000000
    | _ => 0
  clock := ⟨10, 5⟩
  slotHashes := []
  transfers := []

theorem sampleGenesis_genesis : Genesis sampleGenesis := by
  refine ⟨fun p hp => ?_, fun n => ?_, rfl⟩
  · cases p with
    | key n => exact absurd rfl (hp n)
    | _ => rfl
  · simp only [sampleGenesis]
    split <;> rfl

def sampleTournament : CreateTournament where
  organizer := .key 1
  tokenMint := .key 100
  organizerTokenAccount := some (.key 10)
  name := [65]
  entryFee := 50
  maxParticipants := 4
  payoutPreset := .winnerTakesAll
  registrationDeadline := 100
  organizerDeposit := 7
  game := .manual
  settlementMode := .playerReported
  disputeWindowSecs := 60

def sampleInit : Action := .call (.initializeProtocol ⟨.key 9, .key 8, .key 100⟩)

/-- The ledger that the sample tournament is created in. -/
def sampleBorn : Ledger := after sampleRuntime sampleGenesis [sampleInit]

theorem sampleBorn_reachable : Reachable sampleRuntime sampleBorn :=
  script_reachable sampleGenesis_genesis _

theorem sampleBorn_fresh : Fresh sampleTournament.key sampleBorn :=
  ⟨fun _ => rfl, fun _ => rfl⟩

def joinAs (n : Nat) (key : Pubkey) : Action := .call (.joinTournament ⟨.key n, key, .key (n + 9), none⟩)

def twoRevealed (key : Pubkey) : List Action :=
  [joinAs 2 key, joinAs 3 key, .call (.requestSeed ⟨.key 1, key, .key 200⟩),
    .call (.revealSeed ⟨.key 5, key, .key 200⟩)]

/-- The only match of two participants under the all-zero seed. -/
def sampleFinal : MatchInitDescriptor := ⟨0, 0, 0, 255, .key 3, .key 2, false⟩

def finalMatch (key : Pubkey) : Pubkey := .matchNode key sampleFinal.slot

/-- Key 17 becomes the token account of the treasury. -/
def openTreasury : Action := .outside (.account 17 (.token ⟨.key 100, .key 8, 0, false⟩))

def finalFor (signer key : Pubkey) : FinalizeAccounts :=
  ⟨signer, key, finalMatch key, none, [.key 12, .key 17]⟩

/-- A chunk with the accounts that its descriptors ask for. -/
def startWith (key : Pubkey) (ds : List MatchInitDescriptor) : Action :=
  .call (.startTournament ⟨.key 1, key, ds, ds.map (fun d => .matchNode key d.slot) ++
    ds.flatMap fun d => if d.round = 0 then [.participant key d.playerA, .participant key d.playerB] else []⟩)

def openFinal (key : Pubkey) : Action := startWith key [sampleFinal]

/-- Two players, a proposal of key 3 for itself in the final. -/
def proposedBy3 (key : Pubkey) : List Action :=
  twoRevealed key ++ [openFinal key, openTreasury, .call (.proposeResult ⟨.key 3, key, finalMatch key⟩ (.key 3))]

def concede (key : Pubkey) : Action := .call (.confirmResult (finalFor (.key 2) key) [.key 3])

/-- The sample tournament from the beginning up to that proposal. -/
def proposedFinal : List Action :=
  [sampleInit, .call (.createTournament sampleTournament)] ++ proposedBy3 sampleTournament.key

def fourRevealed (key : Pubkey) : List Action :=
  [joinAs 2 key, joinAs 3 key, joinAs 4 key, joinAs 5 key, .call (.requestSeed ⟨.key 1, key, .key 200⟩),
    .call (.revealSeed ⟨.key 5, key, .key 200⟩)]

/-- The matches of four participants under the all-zero seed. -/
def semi0 : MatchInitDescriptor := ⟨0, 0, 0, 255, .key 4, .key 2, false⟩

def semi1 : MatchInitDescriptor := ⟨0, 0, 1, 255, .key 3, .key 5, false⟩

def lastOf4 : MatchInitDescriptor := ⟨0, 1, 0, 255, default, default, false⟩

abbrev SampleLife (bs : List Action) : Prop :=
  Life sampleRuntime sampleTournament sampleBorn (created sampleRuntime sampleTournament sampleBorn)
    (log sampleRuntime (created sampleRuntime sampleTournament sampleBorn) bs)
    (after sampleRuntime (created sampleRuntime sampleTournament sampleBorn) bs)

end Sample

end BracketChain.Scripts
