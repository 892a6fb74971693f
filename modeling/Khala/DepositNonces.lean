/-
The deposit nonces of the bridge (`pallets/xtransfer/src/bridge/mod.rs`).

Every transfer out of the chain takes the next nonce of its chain, whatever it
transfers and whoever asks for it; calls that reach the bridge may be rolled
back. The nonces that remain are numbered through for each chain (`Numbered`),
and the transfers of a block are those since its start.
-/
import Khala.Deposits
import Khala.TransferAtomicity

namespace Khala.XTransfer

open Bridge (BridgeChainId DepositNonce ResourceId BridgeEvent Origin)

variable {S P : Type}

/-! ## Runs -/

/-- What reaches the bridge. -/
inductive Entry (S P : Type)
  | transferNative (origin : Origin AccountId) (amount : ℕ) (recipient : Bytes) (destId : BridgeChainId)
  | transferAssets (origin : Origin AccountId) (asset : MultiLocation) (destId : BridgeChainId) (recipient : Bytes)
    (amount : ℕ)
  | depositAsset (what : MultiAsset) (who : MultiLocation)
  | transfer (origin : Origin AccountId) (dest : Bytes) (amount : ℕ) (rid : ResourceId)
  | transferFungible (destId : BridgeChainId) (rid : ResourceId) (recipient : Bytes) (amount : ℕ)
  | transferNonfungible (destId : BridgeChainId) (rid : ResourceId) (tokenId recipient metadata : Bytes)
  | transferGeneric (destId : BridgeChainId) (rid : ResourceId) (metadata : Bytes)
  | whitelistChain (origin : Origin AccountId) (id : BridgeChainId)
  /-- Whatever else happens, also to the relayers and the votes. -/
  | other (t : State S P)

/-- The chain that the entry is about. -/
def Entry.chain : Entry S P → Option BridgeChainId
  | .transferNative _ _ _ destId => some destId
  | .transferAssets _ _ destId _ _ => some destId
  | .depositAsset _ who => who.destChain
  | .transfer _ _ _ _ => none
  | .transferFungible destId _ _ _ => some destId
  | .transferNonfungible destId _ _ _ _ => some destId
  | .transferGeneric destId _ _ => some destId
  | .whitelistChain _ id => some id
  | .other _ => none

/-- What calls the bridge in turn, and may roll back a part of it. -/
inductive Program (S P : Type)
  | finish (result : Except Error Unit)
  | enter (entry : Entry S P) (next : Except Error Unit → State S P → Program S P)
  | transactional (body : Program S P) (next : Except Error Unit → State S P → Program S P)

section Machine

variable (rt : Runtime S) (cfg : Bridge.Config AccountId P Unit)

/-- The bridge's `whitelist_chain`. -/
def whitelistChain (origin : Origin AccountId) (id : BridgeChainId) : Call (State S P) Error Unit := fun s =>
  match (Bridge.ensureCommittee origin >>= fun _ => Bridge.whitelist cfg id) ⟨s.bridge, 0, (), []⟩ with
  | (.ok (), c) => (.ok (), { s with bridge := c.bridge })
  | (.error e, c) => (.error (.bridge e), { s with bridge := c.bridge })

def enter : Entry S P → Call (State S P) Error Unit
  | .transferNative origin amount recipient destId => transferNative rt origin amount recipient destId
  | .transferAssets origin asset destId recipient amount => transferAssets rt origin asset destId recipient amount
  | .depositAsset what who => depositAsset rt what who
  | .transfer origin dest amount rid => transfer rt origin dest amount rid
  | .transferFungible destId rid recipient amount => announce destId rid recipient amount
  | .transferNonfungible destId rid tokenId recipient metadata =>
    deposit destId fun nonce => .nonFungibleTransfer destId nonce rid tokenId recipient metadata
  | .transferGeneric destId rid metadata => deposit destId fun nonce => .genericTransfer destId nonce rid metadata
  | .whitelistChain origin id => whitelistChain cfg origin id
  | .other t => Call.write fun s => { t with
      bridge := { t.bridge with chainNonces := s.bridge.chainNonces, bridgeEvents := s.bridge.bridgeEvents }
      announced := s.announced }

def Program.run : Program S P → Call (State S P) Error Unit
  | .finish result => Call.lift result
  | .enter entry next => fun s =>
    let ended := XTransfer.enter rt cfg entry s
    (next ended.1 ended.2).run ended.2
  | .transactional body next => fun s =>
    let ended := Call.transactional body.run s
    (next ended.1 ended.2).run ended.2

/-- The state, and the history of the blocks before. -/
structure Blocks (S P : Type) where
  state : State S P
  /-- What had been announced when the block started. -/
  past : List BridgeEvent

inductive BlockOp (S P : Type)
  | dispatch (program : Program S P)
  | nextBlock

def Blocks.exec (b : Blocks S P) : BlockOp S P → Blocks S P
  | .dispatch program => { b with state := (program.run rt cfg b.state).2 }
  | .nextBlock =>
    { state := { b.state with bridge := { b.state.bridge with bridgeEvents := [] } }, past := b.state.announced }

/-- No chain is whitelisted, and nothing was sent. -/
structure Blocks.Genesis (b : Blocks S P) : Prop where
  nonces : b.state.bridge.chainNonces = ∅
  events : b.state.bridge.bridgeEvents = []
  announced : b.state.announced = []
  past : b.past = []

abbrev Blocks.Reachable : Blocks S P → Prop :=
  ReachWhere Blocks.Genesis (fun b op b' => b' = b.exec rt cfg op) fun _ _ => True

end Machine

/-! ## Invariants -/

def State.nonceOf (s : State S P) (chain : BridgeChainId) : DepositNonce :=
  (s.bridge.chainNonces.lookup chain).getD 0

/-- What was announced to a chain. -/
def State.announcedTo (s : State S P) (chain : BridgeChainId) : List BridgeEvent :=
  s.announced.filter fun e => e.destId = chain

/-- The nonces of each chain are numbered through, and a block has the transfers since its start. -/
structure Numbered (past : List BridgeEvent) (s : State S P) : Prop where
  nonces : ∀ chain, (s.announcedTo chain).map BridgeEvent.nonce = List.range' 1 (s.nonceOf chain)
  block : s.announced = past ++ s.bridge.bridgeEvents

/-- The nonces fit 64 bits, unless as many transfers are announced. -/
theorem Numbered.nonce_lt {past : List BridgeEvent} {s : State S P} {chain : BridgeChainId} (h : Numbered past s)
    (hfew : (s.announcedTo chain).length < 2 ^ 64) :
    s.nonceOf chain < 2 ^ 64 ∧ ∀ e ∈ s.announcedTo chain, e.nonce < 2 ^ 64 := by
  have hlength : (s.announcedTo chain).length = s.nonceOf chain := by
    rw [← List.length_map (f := BridgeEvent.nonce), h.nonces, List.length_range']
  have hlt : s.nonceOf chain < 2 ^ 64 := hlength ▸ hfew
  refine ⟨hlt, fun e he => ?_⟩
  have hmem := List.mem_map_of_mem (f := BridgeEvent.nonce) he
  rw [h.nonces, List.mem_range'_1] at hmem
  have hle : e.nonce ≤ s.nonceOf chain := Nat.le_of_lt_succ (hmem.2.trans_eq (Nat.add_comm _ _))
  exact hle.trans_lt hlt

/-- A whitelisted chain stays so, and its nonce never goes back. -/
def Counts (s s' : State S P) : Prop :=
  ∀ chain nonce, s.bridge.chainNonces.lookup chain = some nonce →
    ∃ nonce' ≥ nonce, s'.bridge.chainNonces.lookup chain = some nonce'

/-- Nothing happens to the other chains. -/
def SameOutside (dests : Set BridgeChainId) (s s' : State S P) : Prop :=
  ∀ chain ∉ dests, s'.bridge.chainNonces.lookup chain = s.bridge.chainNonces.lookup chain ∧
    s'.announcedTo chain = s.announcedTo chain

variable {rt : Runtime S} {cfg : Bridge.Config AccountId P Unit} {s s₀ : State S P} {dests : Set BridgeChainId}
  {destId : BridgeChainId} {event : DepositNonce → BridgeEvent} {past : List BridgeEvent}

theorem nonceOf_deposited (chain : BridgeChainId) :
    (s.deposited destId event).nonceOf chain =
      if chain = destId then s.nonceOf destId + 1 else s.nonceOf chain := by
  unfold State.nonceOf State.deposited
  dsimp only
  rw [StorageMap.lookup_insert_ite]
  by_cases h : chain = destId
  · rw [if_pos h, if_pos h]
    rfl
  · rw [if_neg h, if_neg h]

theorem announcedTo_deposited (he : EventsOf destId event) (chain : BridgeChainId) :
    (s.deposited destId event).announcedTo chain =
      s.announcedTo chain ++ if chain = destId then [event (s.nonceOf destId + 1)] else [] := by
  unfold State.announcedTo State.deposited
  dsimp only
  rw [List.filter_append]
  congr 1
  by_cases h : chain = destId
  · subst h
    rw [if_pos rfl, List.filter_cons_of_pos (by simp [(he _).1])]
    rfl
  · rw [if_neg h, List.filter_cons_of_neg]
    · rfl
    · simpa [(he _).1] using Ne.symm h

theorem numbered_kept : KeptByDeposits Set.univ (Numbered past : State S P → Prop) where
  tokens _ _ h := ⟨h.nonces, h.block⟩
  deposit s destId event _ he _ h := by
    constructor
    · intro chain
      rw [announcedTo_deposited he, nonceOf_deposited, List.map_append, h.nonces]
      by_cases hc : chain = destId
      · subst hc
        rw [if_pos rfl, if_pos rfl, List.range'_1_concat, List.map_singleton, (he _).2, Nat.add_comm]
      · rw [if_neg hc, if_neg hc, List.map_nil, List.append_nil]
    · unfold State.deposited
      dsimp only
      rw [h.block, List.append_assoc]

theorem counts_kept : KeptByDeposits Set.univ (Counts s₀) where
  tokens _ _ h := h
  deposit s destId event _ _ hlisted h := by
    intro chain nonce hnonce
    obtain ⟨nonce', hle, hnonce'⟩ := h chain nonce hnonce
    by_cases hc : chain = destId
    · subst hc
      refine ⟨s.bridge.nextNonce chain, ?_, AList.lookup_insert _⟩
      rw [Bridge.Storage.nextNonce, hnonce', Option.getD_some]
      exact Nat.le_succ_of_le hle
    · exact ⟨nonce', hle, (AList.lookup_insert_ne hc).trans hnonce'⟩

theorem sameOutside_kept : KeptByDeposits dests (SameOutside dests s₀) where
  tokens _ _ h := h
  deposit s destId event hdest he _ h := by
    intro chain hchain
    have hne : chain ≠ destId := by
      intro hc
      exact hchain (hc ▸ hdest)
    obtain ⟨hlookup, hannounced⟩ := h chain hchain
    constructor
    · exact (AList.lookup_insert_ne hne).trans hlookup
    · rw [announcedTo_deposited he, if_neg hne, List.append_nil, hannounced]

/-! ## Whitelisting -/

/-- A chain without a nonce gets zero. -/
theorem whitelistChain_keeps {I : State S P → Prop} {origin : Origin AccountId} {id : BridgeChainId}
    (hI : ∀ s, s.bridge.chainNonces.lookup id = none → I s →
      I { s with bridge := { s.bridge with chainNonces := s.bridge.chainNonces.insert id 0 } }) :
    (whitelistChain cfg origin id : Call (State S P) Error Unit).Keeps I := by
  intro s hs
  have hends : (Bridge.ensureCommittee origin >>= fun _ => Bridge.whitelist cfg id).Ends ⟨s.bridge, 0, (), []⟩
      (fun _ c => I { s with bridge := c.bridge }) fun _ c => I { s with bridge := c.bridge } := by
    cases origin with
    | signed who => exact hs
    | other => exact hs
    | committee =>
      refine Call.Ends.ensure_then (fun _ => hs) fun _ => Call.Ends.read_then ?_
      refine Call.Ends.ensure_then (fun _ => hs) fun hnot => ?_
      exact hI s (by simpa [Bridge.Storage.chainWhitelisted] using hnot) hs
  refine Call.ends_of (fun _ s' h => ?_) fun _ s' h => ?_
  · unfold whitelistChain at h
    split at h
    · next heq =>
      cases h
      exact hends.ok heq
    · cases h
  · unfold whitelistChain at h
    split at h
    · cases h
    · next heq =>
      cases h
      exact hends.error heq

section Whitelist

variable {id : BridgeChainId} (hnone : s.bridge.chainNonces.lookup id = none)

include hnone

theorem Numbered.whitelist (h : Numbered past s) :
    Numbered past { s with bridge := { s.bridge with chainNonces := s.bridge.chainNonces.insert id 0 } } := by
  refine ⟨fun chain => (h.nonces chain).trans ?_, h.block⟩
  congr 1
  unfold State.nonceOf
  dsimp only
  rw [StorageMap.lookup_insert_ite]
  split
  · next hc =>
    rw [hc, hnone]
    rfl
  · rfl

theorem Counts.whitelist (h : Counts s₀ s) :
    Counts s₀ { s with bridge := { s.bridge with chainNonces := s.bridge.chainNonces.insert id 0 } } := by
  intro chain nonce hnonce
  obtain ⟨nonce', hle, hnonce'⟩ := h chain nonce hnonce
  refine ⟨nonce', hle, (AList.lookup_insert_ne ?_).trans hnonce'⟩
  intro hc
  rw [hc, hnone] at hnonce'
  cases hnonce'

end Whitelist

theorem SameOutside.whitelist {id : BridgeChainId} (hid : id ∈ dests) (h : SameOutside dests s₀ s) :
    SameOutside dests s₀
    { s with bridge := { s.bridge with chainNonces := s.bridge.chainNonces.insert id 0 } } := by
  intro chain hchain
  refine ⟨(AList.lookup_insert_ne ?_).trans (h chain hchain).1, (h chain hchain).2⟩
  intro hc
  exact hchain (hc ▸ hid)

/-! ## Whatever reaches the bridge -/

/-- An invariant of the nonces, the events and the history only. -/
structure KeptByEntries (dests : Set BridgeChainId) (I : State S P → Prop) :
    Prop extends KeptByDeposits dests I where
  whitelist : ∀ s, ∀ id ∈ dests, s.bridge.chainNonces.lookup id = none → I s →
    I { s with bridge := { s.bridge with chainNonces := s.bridge.chainNonces.insert id 0 } }
  other : ∀ s t : State S P, t.bridge.chainNonces = s.bridge.chainNonces →
    t.bridge.bridgeEvents = s.bridge.bridgeEvents →
    t.announced = s.announced → I s → I t

theorem KeptByEntries.enter {I : State S P → Prop} (hI : KeptByEntries dests I) (entry : Entry S P)
    (hdest : ∀ chain, entry.chain = some chain → chain ∈ dests) : (enter rt cfg entry).Keeps I := by
  have hdeposits := hI.toKeptByDeposits
  cases entry with
  | transferNative origin amount recipient destId =>
    exact hdeposits.transferNative origin amount recipient (hdest _ rfl)
  | transferAssets origin asset destId recipient amount =>
    exact hdeposits.transferAssets origin asset (hdest _ rfl) recipient amount
  | depositAsset what who => exact hdeposits.depositAsset what hdest
  | transfer origin dest amount rid =>
    exact hdeposits.transfer (fun s _ hs => hI.other s _ rfl rfl rfl hs) origin dest amount
  | transferFungible => exact hdeposits.ofDeposit (hdest _ rfl) eventsOf_fungible
  | transferNonfungible => exact hdeposits.ofDeposit (hdest _ rfl) eventsOf_nonFungible
  | transferGeneric => exact hdeposits.ofDeposit (hdest _ rfl) eventsOf_generic
  | whitelistChain origin id => exact whitelistChain_keeps fun s => hI.whitelist s id (hdest _ rfl)
  | other t => exact .write fun s hs => hI.other s _ rfl rfl rfl hs

theorem KeptByEntries.run {I : State S P → Prop} (hI : KeptByEntries Set.univ I) (program : Program S P) :
    (program.run rt cfg).Keeps I := by
  induction program with
  | finish result => exact .lift result
  | enter entry next ih =>
    exact fun s hs => ih _ _ _ ((hI.enter entry fun _ _ => Set.mem_univ _).state hs)
  | transactional body next ihbody ihnext => exact fun s hs => ihnext _ _ _ (ihbody.transactional.state hs)

theorem numbered_kept_by_entries : KeptByEntries Set.univ (Numbered past : State S P → Prop) where
  toKeptByDeposits := numbered_kept
  whitelist _ _ _ hnone h := h.whitelist hnone
  other s t hnonces hevents hannounced h := by
    constructor
    · intro chain
      have := h.nonces chain
      unfold State.announcedTo State.nonceOf at this ⊢
      rwa [hannounced, hnonces]
    · rw [hannounced, hevents, h.block]

theorem counts_kept_by_entries : KeptByEntries Set.univ (Counts s₀) where
  toKeptByDeposits := counts_kept
  whitelist _ _ _ hnone h := h.whitelist hnone
  other s t hnonces _ _ h := by
    unfold Counts
    rwa [hnonces]

theorem sameOutside_kept_by_entries : KeptByEntries dests (SameOutside dests s₀) where
  toKeptByDeposits := sameOutside_kept
  whitelist _ _ hid _ h := h.whitelist hid
  other s t hnonces _ hannounced h := by
    intro chain hchain
    unfold State.announcedTo
    rw [hnonces, hannounced]
    exact h chain hchain

theorem Blocks.Reachable.numbered {b : Blocks S P} (h : Blocks.Reachable rt cfg b) : Numbered b.past b.state := by
  refine h.invariant (fun b => Numbered b.past b.state) (fun b hb => ?_) ?_
  · constructor
    · intro chain
      unfold State.announcedTo State.nonceOf
      rw [hb.announced, hb.nonces]
      rfl
    · rw [hb.announced, hb.past, hb.events]
      rfl
  · rintro b op _ hb _ rfl
    cases op with
    | dispatch program => exact (numbered_kept_by_entries.run program).state hb
    | nextBlock => exact ⟨hb.nonces, (List.append_nil _).symm⟩

/-- **Deposit nonces have no gaps and no repeats.** Whatever reached the bridge, and whatever was rolled
back: what remains announced to a chain carries the nonces 1, 2, …, n in this order, and n is the chain's
counter; the events of the block are what was announced since its start. No program takes a counter back,
whitelisting included, and an entry that is about one chain does nothing to the others. -/
theorem nonces_consecutive {b : Blocks S P} (h : Blocks.Reachable rt cfg b) :
    (∀ chain, (b.state.announcedTo chain).map BridgeEvent.nonce = List.range' 1 (b.state.nonceOf chain)) ∧
    b.state.announced = b.past ++ b.state.bridge.bridgeEvents ∧
    (∀ program : Program S P, Counts b.state (program.run rt cfg b.state).2) ∧
    (∀ origin id chain nonce, b.state.bridge.chainNonces.lookup chain = some nonce →
      (whitelistChain cfg origin id b.state).2.bridge.chainNonces.lookup chain = some nonce) ∧
    ∀ entry : Entry S P, SameOutside {chain | entry.chain = some chain} b.state
      (enter rt cfg entry b.state).2 := by
  refine ⟨h.numbered.nonces, h.numbered.block, fun program => ?_,
    fun origin id chain nonce hnonce => ?_, fun entry => ?_⟩
  · exact (counts_kept_by_entries.run program).state fun chain nonce hnonce => ⟨nonce, le_refl _, hnonce⟩
  · refine (whitelistChain_keeps (I := fun s : State S P => s.bridge.chainNonces.lookup chain = some nonce)
      fun s hnone hs => (AList.lookup_insert_ne ?_).trans hs).state hnonce
    intro hc
    rw [hc, hnone] at hs
    cases hs
  · exact (sameOutside_kept_by_entries.enter entry fun chain hchain => hchain).state fun chain _ => ⟨rfl, rfl⟩

/-! ### A transfer rolled back between two others -/

namespace Demo

def config : Bridge.Config AccountId Unit Unit where
  bridgeChainId := 1
  proposalLifetime := 50400
  behaviour _ _ := .finish (.ok ())
  depth := 1

def once (entry : Entry Ledger Unit) : Program Ledger Unit := .enter entry fun result _ => .finish result

def rolledBack (entry : Entry Ledger Unit) : Program Ledger Unit :=
  .transactional (.enter entry fun _ _ => .finish (.error .badOrigin)) fun result _ => .finish result

def interrupted : List (BlockOp Ledger Unit) :=
  [.dispatch (once (.whitelistChain .committee 0)),
    .dispatch (once (.transferGeneric 0 (hashing.genPhaRid 0) [1])),
    .dispatch (rolledBack (.transferFungible 0 (hashing.genPhaRid 0) [2] 10)),
    .nextBlock,
    .dispatch (once (.transferFungible 0 (hashing.genPhaRid 0) [3] 20))]

end Demo

theorem nonces_consecutive_demo : ∃ b, Blocks.Reachable Demo.runtime Demo.config b ∧
    (b.state.announcedTo 0).map Bridge.BridgeEvent.nonce = [1, 2] ∧
    b.state.bridge.bridgeEvents = [.fungibleTransfer 0 2 (Demo.hashing.genPhaRid 0) 20 [3]] := by
  have hreach : Blocks.Reachable Demo.runtime Demo.config
      (Demo.interrupted.foldl (Blocks.exec Demo.runtime Demo.config) ⟨Demo.state, []⟩) :=
    .foldl (.init ⟨rfl, rfl, rfl, rfl⟩) (by decide +kernel)
  refine ⟨_, hreach, ((nonces_consecutive hreach).1 0).trans ?_, ?_⟩
  · decide +kernel
  · decide +kernel

end Khala.XTransfer
