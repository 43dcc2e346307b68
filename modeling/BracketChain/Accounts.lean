import BracketChain.Outcome
import BracketChain.Records
import Mathlib.Logic.Function.Basic

namespace BracketChain.Accounts

open Outcome Keys Records

structure TokenAccount where
  mint : Pubkey
  owner : Pubkey
  amount : Nat
  /-- The freeze authority of the mint, if it has one, has stopped the account. -/
  frozen : Bool
deriving DecidableEq, Repr

/-- What an address holds. `system` is an address without data, `zeroed` an
account assigned to this program and never written, `foreign` an account of
a program this one only reads. -/
inductive Account
  | system
  | protocolConfig (c : ProtocolConfig)
  | tournament (t : Tournament)
  | participant (p : Participant)
  | matchNode (m : MatchNode)
  | mint
  | token (v : TokenAccount)
  | zeroed
  | foreign (owner : Pubkey) (data : List UInt8)

def Account.isSystem : Account → Bool
  | .system => true
  | _ => false

def Account.programOwned : Account → Bool
  | .protocolConfig _ | .tournament _ | .participant _ | .matchNode _ | .zeroed => true
  | _ => false

/-- Accounts that other programs may put at an address. -/
def Account.outside : Account → Bool
  | .system | .mint | .token _ | .zeroed | .foreign _ _ => true
  | _ => false

def Account.asTournament : Account → Option Tournament
  | .tournament t => some t
  | _ => none

def Account.asParticipant : Account → Option Participant
  | .participant p => some p
  | _ => none

def Account.asMatchNode : Account → Option MatchNode
  | .matchNode m => some m
  | _ => none

def Account.asConfig : Account → Option ProtocolConfig
  | .protocolConfig c => some c
  | _ => none

def Account.asToken : Account → Option TokenAccount
  | .token v => some v
  | _ => none

def Account.asForeign : Account → Option (Pubkey × List UInt8)
  | .foreign owner data => some (owner, data)
  | _ => none

structure Clock where
  unixTimestamp : Int
  slot : Nat
deriving DecidableEq, Repr

/-- A token transfer made by this program, with the owner of the credited
account at that moment. -/
structure Transfer where
  source : Pubkey
  destination : Pubkey
  recipient : Pubkey
  amount : Nat
deriving DecidableEq, Repr

structure Ledger where
  accounts : Pubkey → Account
  lamports : Pubkey → Nat
  clock : Clock
  slotHashes : List UInt8
  transfers : List Transfer

structure Feed where
  queue : Pubkey
  feedHash : Bytes32
  /-- `get_value(slot, max_staleness, min_samples, only_positive)`, as the
  mantissa and the scale of the decimal. -/
  getValue : Nat → Nat → Nat → Bool → Option (Int × Nat)

/-- The code outside this repository that the program calls: the validity of
a candidate program address, the bytes of an address, the hash and the rent
rule of the runtime, and the account parsers of Switchboard. -/
structure Runtime where
  offCurve : Pubkey → Bool
  keyBytes : Pubkey → List UInt8
  keccak : List UInt8 → Bytes32
  minimumBalance : Nat → Nat
  parseRandomness : List UInt8 → Option (Nat → Option Bytes32)
  parseFeed : List UInt8 → Option Feed

namespace Ledger

def tournament? (s : Ledger) (p : Pubkey) : Option Tournament := (s.accounts p).asTournament

def participant? (s : Ledger) (p : Pubkey) : Option Participant := (s.accounts p).asParticipant

def matchNode? (s : Ledger) (p : Pubkey) : Option MatchNode := (s.accounts p).asMatchNode

def token? (s : Ledger) (p : Pubkey) : Option TokenAccount := (s.accounts p).asToken

def config? (s : Ledger) : Option ProtocolConfig := (s.accounts .protocolConfig).asConfig

def setAccount (s : Ledger) (p : Pubkey) (a : Account) : Ledger :=
  { s with accounts := Function.update s.accounts p a }

/-- `Account<Tournament>` with its seeds. -/
def loadTournament (s : Ledger) (p : Pubkey) : Except Error Tournament := do
  let t ← orThrow (s.tournament? p) .accountNotInitialized
  require (p = .tournament t.organizer t.name) .constraintSeeds
  pure t

/-- `Account<MatchNode>` with its seeds and its `tournament` constraint. -/
def loadMatch (s : Ledger) (key p : Pubkey) : Except Error MatchNode := do
  let m ← orThrow (s.matchNode? p) .accountNotInitialized
  require (p = .matchNode key m.slot) .constraintSeeds
  require (m.tournament = key) .invalidMatchIndex
  pure m

/-- `Account<Participant>` at the address its seeds pin. -/
def loadParticipant (s : Ledger) (key wallet : Pubkey) : Except Error Participant :=
  orThrow (s.participant? (.participant key wallet)) .accountNotInitialized

def loadConfig (s : Ledger) : Except Error ProtocolConfig := orThrow s.config? .accountNotInitialized

def loadToken (s : Ledger) (p : Pubkey) : Except Error TokenAccount :=
  orThrow (s.token? p) .accountNotInitialized

/-- `Account<TokenAccount>` at the vault address its seeds pin. -/
def loadVault (s : Ledger) (key : Pubkey) (t : Tournament) : Except Error TokenAccount := do
  let v ← s.loadToken (.vault key)
  require (t.vault = .vault key) .invalidVault
  pure v

def loadForeign (s : Ledger) (p : Pubkey) : Option (Pubkey × List UInt8) := (s.accounts p).asForeign

/-- `Participant::try_deserialize` on an account passed without constraints. -/
def readParticipant (s : Ledger) (p : Pubkey) (notOwned : Error) : Except Error Participant := do
  require ((s.accounts p).programOwned = true) notOwned
  orThrow (s.participant? p) .accountDiscriminatorMismatch

/-- The system program's `transfer`, which debits accounts without data only. -/
def transferLamports (s : Ledger) (payer p : Pubkey) (amount : Nat) : Except Error Ledger := do
  require ((s.accounts payer).isSystem = true) .notAllowed
  require (amount ≤ s.lamports payer) .insufficientLamports
  let debited := Function.update s.lamports payer (s.lamports payer - amount)
  pure { s with lamports := Function.update debited p (debited p + amount) }

/-- Anchor's `init`: fund what is missing to rent exemption, allocate, assign. -/
def initAccount (rt : Runtime) (s : Ledger) (payer p : Pubkey) (space : Nat) (a : Account) :
    Except Error Ledger := do
  require ((s.accounts p).isSystem = true) .accountAlreadyInUse
  let missing := rt.minimumBalance space - s.lamports p
  let s ← if missing = 0 then pure s else s.transferLamports payer p missing
  pure (s.setAccount p a)

/-- The system program's `create_account`, which needs an empty address. -/
def createAccount (rt : Runtime) (s : Ledger) (payer p : Pubkey) (space : Nat) (a : Account) :
    Except Error Ledger := do
  require ((s.accounts p).isSystem = true ∧ s.lamports p = 0) .accountAlreadyInUse
  let s ← s.transferLamports payer p (rt.minimumBalance space)
  pure (s.setAccount p a)

/-- The token program's `transfer`, for mints other than the native one. -/
def tokenTransfer (s : Ledger) (source destination authority : Pubkey) (amount : Nat) :
    Except Error Ledger := do
  let a ← s.loadToken source
  let b ← s.loadToken destination
  require (a.frozen = false ∧ b.frozen = false) .accountFrozen
  require (amount ≤ a.amount) .insufficientFunds
  require (a.mint = b.mint) .mintMismatch
  require (a.owner = authority) .ownerMismatch
  let s := { s with transfers := s.transfers ++ [⟨source, destination, b.owner, amount⟩] }
  if source = destination then pure s
  else do
    require (b.amount + amount ≤ u64Max) .tokenOverflow
    pure ((s.setAccount source (.token { a with amount := a.amount - amount })).setAccount destination
      (.token { b with amount := b.amount + amount }))

/-- The owner and mint checks of the payout and refund paths. -/
def validateTokenAccount (s : Ledger) (p expectedOwner expectedMint : Pubkey) : Except Error Unit := do
  let v ← orThrow (s.token? p) .invalidTokenMint
  require (v.mint = expectedMint) .invalidTokenMint
  require (v.owner = expectedOwner) .invalidTreasury

/-- Move all lamports of `p` to `dest` and hand it back to the system program. -/
def drainAccount (s : Ledger) (p dest : Pubkey) : Ledger :=
  let credited := Function.update s.lamports dest (s.lamports dest + s.lamports p)
  { s with lamports := Function.update credited p 0, accounts := Function.update s.accounts p .system }

@[simp] theorem setAccount_transfers (s : Ledger) (p : Pubkey) (a : Account) :
    (s.setAccount p a).transfers = s.transfers := rfl

theorem setAccount_accounts (s : Ledger) (p q : Pubkey) (a : Account) :
    (s.setAccount p a).accounts q = if q = p then a else s.accounts q := by
  simp [setAccount, Function.update_apply]

theorem tournament?_eq_some {s : Ledger} {p : Pubkey} {t : Tournament} :
    s.tournament? p = some t ↔ s.accounts p = .tournament t := by
  unfold tournament? Account.asTournament
  split <;> simp_all

theorem participant?_eq_some {s : Ledger} {p : Pubkey} {x : Participant} :
    s.participant? p = some x ↔ s.accounts p = .participant x := by
  unfold participant? Account.asParticipant
  split <;> simp_all

theorem matchNode?_eq_some {s : Ledger} {p : Pubkey} {m : MatchNode} :
    s.matchNode? p = some m ↔ s.accounts p = .matchNode m := by
  unfold matchNode? Account.asMatchNode
  split <;> simp_all

theorem token?_eq_some {s : Ledger} {p : Pubkey} {v : TokenAccount} :
    s.token? p = some v ↔ s.accounts p = .token v := by
  unfold token? Account.asToken
  split <;> simp_all

theorem config?_eq_some {s : Ledger} {cfg : ProtocolConfig} :
    s.config? = some cfg ↔ s.accounts .protocolConfig = .protocolConfig cfg := by
  unfold config? Account.asConfig
  split <;> simp_all

theorem isSystem_iff {a : Account} : a.isSystem = true ↔ a = .system := by
  cases a <;> simp [Account.isSystem]

theorem loadTournament_ok {s : Ledger} {p : Pubkey} {t : Tournament} :
    s.loadTournament p = .ok t ↔ s.tournament? p = some t ∧ p = .tournament t.organizer t.name := by
  simp only [loadTournament, bind_ok, orThrow_ok, require_ok, pure_ok]
  constructor
  · rintro ⟨t', ht, _, hp, rfl⟩
    exact ⟨ht, hp⟩
  · rintro ⟨ht, hp⟩
    exact ⟨t, ht, (), hp, rfl⟩

theorem loadMatch_ok {s : Ledger} {key p : Pubkey} {m : MatchNode} :
    s.loadMatch key p = .ok m ↔
      s.matchNode? p = some m ∧ p = .matchNode key m.slot ∧ m.tournament = key := by
  simp only [loadMatch, bind_ok, orThrow_ok, require_ok, pure_ok]
  constructor
  · rintro ⟨m', hm, _, hp, _, hk, rfl⟩
    exact ⟨hm, hp, hk⟩
  · rintro ⟨hm, hp, hk⟩
    exact ⟨m, hm, (), hp, (), hk, rfl⟩

theorem loadToken_ok {s : Ledger} {p : Pubkey} {v : TokenAccount} :
    s.loadToken p = .ok v ↔ s.token? p = some v :=
  orThrow_ok _ _ _

theorem loadVault_ok {s : Ledger} {key : Pubkey} {t : Tournament} {v : TokenAccount} :
    s.loadVault key t = .ok v ↔ s.token? (.vault key) = some v ∧ t.vault = .vault key := by
  simp only [loadVault, bind_ok, loadToken_ok, require_ok, pure_ok]
  constructor
  · rintro ⟨v', hv, _, ht, rfl⟩
    exact ⟨hv, ht⟩
  · rintro ⟨hv, ht⟩
    exact ⟨v, hv, (), ht, rfl⟩

theorem loadParticipant_ok {s : Ledger} {key wallet : Pubkey} {x : Participant} :
    s.loadParticipant key wallet = .ok x ↔ s.participant? (.participant key wallet) = some x :=
  orThrow_ok _ _ _

theorem readParticipant_ok {s : Ledger} {p : Pubkey} {e : Error} {x : Participant} :
    s.readParticipant p e = .ok x ↔ s.participant? p = some x := by
  simp only [readParticipant, bind_ok, orThrow_ok, require_ok]
  constructor
  · rintro ⟨_, _, hx⟩
    exact hx
  · intro hx
    exact ⟨(), by simp [participant?_eq_some.1 hx, Account.programOwned], hx⟩

theorem validateTokenAccount_ok {s : Ledger} {p owner mint : Pubkey} {u : Unit} :
    s.validateTokenAccount p owner mint = .ok u ↔
      ∃ v, s.token? p = some v ∧ v.mint = mint ∧ v.owner = owner := by
  simp only [validateTokenAccount, bind_ok, orThrow_ok, require_ok]
  constructor
  · rintro ⟨v, hv, _, hm, ho⟩
    exact ⟨v, hv, hm, ho⟩
  · rintro ⟨v, hv, hm, ho⟩
    exact ⟨v, hv, (), hm, ho⟩

def logged (s : Ledger) (x : Transfer) : Ledger := { s with transfers := s.transfers ++ [x] }

theorem tokenTransfer_ok {s s' : Ledger} {source destination authority : Pubkey} {amount : Nat} :
    s.tokenTransfer source destination authority amount = .ok s' ↔
      ∃ a b, s.token? source = some a ∧ s.token? destination = some b ∧ (a.frozen = false ∧ b.frozen = false) ∧
        amount ≤ a.amount ∧ a.mint = b.mint ∧ a.owner = authority ∧
        ((source = destination ∧ s' = s.logged ⟨source, destination, b.owner, amount⟩) ∨
          (source ≠ destination ∧ b.amount + amount ≤ u64Max ∧
            s' = ((s.logged ⟨source, destination, b.owner, amount⟩).setAccount source
              (.token { a with amount := a.amount - amount })).setAccount destination
              (.token { b with amount := b.amount + amount }))) := by
  simp only [tokenTransfer, bind_ok, loadToken_ok, require_ok, ite_ok, pure_ok]
  constructor
  · rintro ⟨a, ha, b, hb, _, thawed, _, hle, _, hm, _, ho, h⟩
    refine ⟨a, b, ha, hb, thawed, hle, hm, ho, ?_⟩
    rcases h with ⟨he, rfl⟩ | ⟨hne, _, hov, rfl⟩
    · exact .inl ⟨he, rfl⟩
    · exact .inr ⟨hne, hov, rfl⟩
  · rintro ⟨a, b, ha, hb, thawed, hle, hm, ho, h⟩
    refine ⟨a, ha, b, hb, (), thawed, (), hle, (), hm, (), ho, ?_⟩
    rcases h with ⟨he, rfl⟩ | ⟨hne, hov, rfl⟩
    · exact .inl ⟨he, rfl⟩
    · exact .inr ⟨hne, (), hov, rfl⟩

theorem transferLamports_ok {s s' : Ledger} {payer p : Pubkey} {amount : Nat}
    (h : s.transferLamports payer p amount = .ok s') : ∃ l, s' = { s with lamports := l } := by
  simp only [transferLamports, bind_ok, require_ok, pure_ok] at h
  obtain ⟨_, _, _, _, rfl⟩ := h
  exact ⟨_, rfl⟩

/-- The address is rent-exempt already, or the payer brings what is missing. -/
theorem initAccount_cases {rt : Runtime} {s s' : Ledger} {payer p : Pubkey} {space : Nat} {a : Account}
    (h : s.initAccount rt payer p space a = .ok s') : s.accounts p = .system ∧ ∃ t, s' = t.setAccount p a ∧
      ((rt.minimumBalance space ≤ s.lamports p ∧ t = s) ∨
        s.transferLamports payer p (rt.minimumBalance space - s.lamports p) = .ok t) := by
  simp only [initAccount, bind_ok, require_ok, isSystem_iff] at h
  obtain ⟨_, hp, h⟩ := h
  split at h
  · rename_i none_
    exact ⟨hp, s, ((pure_ok _ _).1 h).symm, .inl ⟨Nat.sub_eq_zero_iff_le.1 none_, rfl⟩⟩
  · simp only [bind_ok, pure_ok] at h
    obtain ⟨t, funded, rfl⟩ := h
    exact ⟨hp, t, rfl, .inr funded⟩

theorem initAccount_ok {rt : Runtime} {s s' : Ledger} {payer p : Pubkey} {space : Nat} {a : Account}
    (h : s.initAccount rt payer p space a = .ok s') :
    s.accounts p = .system ∧ ∃ l, s' = { s with lamports := l }.setAccount p a := by
  obtain ⟨hp, t, rfl, ⟨_, rfl⟩ | ht⟩ := initAccount_cases h
  · exact ⟨hp, _, rfl⟩
  · obtain ⟨l, rfl⟩ := transferLamports_ok ht
    exact ⟨hp, l, rfl⟩

theorem createAccount_ok {rt : Runtime} {s s' : Ledger} {payer p : Pubkey} {space : Nat} {a : Account}
    (h : s.createAccount rt payer p space a = .ok s') :
    s.accounts p = .system ∧ ∃ l, s' = { s with lamports := l }.setAccount p a := by
  simp only [createAccount, bind_ok, require_ok, pure_ok, isSystem_iff] at h
  obtain ⟨_, hp, t, ht, rfl⟩ := h
  obtain ⟨l, rfl⟩ := transferLamports_ok ht
  exact ⟨hp.1, l, rfl⟩

end Ledger

end BracketChain.Accounts
