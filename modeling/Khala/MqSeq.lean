/-
The next sequence number of a sender (`get_mq_seq` of
`crates/phala-node-rpc-ext/src/mq_seq.rs`).

The node starts from the sequence number of the chain and goes once through the
ready transactions, one number further at each transaction that provides the
current tag. A transaction counts once, whatever else it provides.
-/
import Khala.Bytes
import Khala.Mq

namespace Khala.Mq

/-! ## Tags -/

/-- The string `PhalaMqOffchainMessages`, encoded. -/
def tagLabel : Bytes :=
  [0x5c, 0x50, 0x68, 0x61, 0x6c, 0x61, 0x4d, 0x71, 0x4f, 0x66, 0x66, 0x63, 0x68, 0x61,
    0x69, 0x6e, 0x4d, 0x65, 0x73,
    0x73, 0x61, 0x67, 0x65, 0x73]

/-- What the node asks others for: the codecs, and the runtime at the best block. -/
structure Node where
  hexDecode : String → Option Bytes
  decodeOrigin : Bytes → Option MessageOrigin
  encodeOrigin : MessageOrigin → Bytes
  senderSequence : MessageOrigin → Except String (Option ℕ)

/-- A ready transaction of the pool. -/
structure Ready where
  provides : List Bytes

inductive SeqError
  | invalidSender
  | apiError (e : String)
deriving DecidableEq, Repr

namespace Node

variable (node : Node)

def tag (sender : MessageOrigin) (seq : ℕ) : Bytes := tagLabel ++ node.encodeOrigin sender ++ leBytes 8 seq

/-! ## The pass over the pool -/

/-- The sequence number after the ready transactions. A transaction is left at the first tag that matches. -/
def pastReady (sender : MessageOrigin) : List Ready → ℕ → ℕ
  | [], currentSeq => currentSeq
  | tx :: txs, currentSeq =>
    if tx.provides.contains (node.tag sender currentSeq) then pastReady sender txs ((currentSeq + 1) % 2 ^ 64)
    else pastReady sender txs currentSeq

def getMqSeq (pool : List Ready) (senderHex : String) : Except SeqError ℕ := do
  let senderScl ← (node.hexDecode senderHex).elim (throw .invalidSender) pure
  let sender ← (node.decodeOrigin senderScl).elim (throw .invalidSender) pure
  let seq ← (node.senderSequence sender).mapError .apiError
  pure (node.pastReady sender pool (seq.getD 0))

/-! ## The least free number -/

variable {node} {sender : MessageOrigin} {pool : List Ready} {tx : Ready} {s m n : ℕ}

theorem tag_inj (hm : m < 2 ^ 64) (hn : n < 2 ^ 64) (h : node.tag sender m = node.tag sender n) : m = n := by
  have hbytes : leBytes 8 m = leBytes 8 n := List.append_cancel_left h
  exact leBytes_inj (by simpa using hm) (by simpa using hn) hbytes

variable (node sender) in
/-- The transaction provides the sender's tag of the number. -/
def Provides (tx : Ready) (seq : ℕ) : Prop := seq < 2 ^ 64 ∧ node.tag sender seq ∈ tx.provides

variable (node sender) in
/-- The transaction provides one tag of the sender at most. -/
def ProvidesOnce (tx : Ready) : Prop := ∀ m n, node.Provides sender tx m → node.Provides sender tx n → m = n

variable (node sender) in
/-- The sender's tags are in ascending order. -/
def Ascending (pool : List Ready) : Prop :=
  pool.Pairwise fun tx later => ∀ m n, node.Provides sender tx m → node.Provides sender later n → m ≤ n

variable (node sender) in
/-- The numbers from `s` on that no transaction provides. -/
def free (pool : List Ready) (s : ℕ) : Set ℕ := {n | s ≤ n ∧ n < 2 ^ 64 ∧ ∀ tx ∈ pool, ¬node.Provides sender tx n}

/-- A transaction as the signed extension builds it provides one tag at most. -/
theorem providesOnce_validate {X : Type} {c : Chain X} {signedMessage : SignedMessage}
    {provides requires : List (MessageOrigin × ℕ)} (h : validate c signedMessage = .ok (provides, requires)) :
    node.ProvidesOnce sender ⟨provides.map fun p => node.tag p.1 p.2⟩ := by
  unfold validate at h
  dsimp only at h
  split at h
  · cases h
  · cases h
    intro m n ⟨hm, hmem⟩ ⟨hn, hmem'⟩
    rw [List.map_singleton, List.mem_singleton] at hmem hmem'
    exact tag_inj hm hn (hmem.trans hmem'.symm)

/-- A transaction that provides the first free number's predecessor moves it on. -/
theorem isLeast_of_provides (honce : node.ProvidesOnce sender tx) (hs : node.Provides sender tx s)
    (h : IsLeast (node.free sender pool (s + 1)) n) : IsLeast (node.free sender (tx :: pool) s) n := by
  obtain ⟨⟨hle, hlt, hfree⟩, hleast⟩ := h
  refine ⟨⟨by omega, hlt, ?_⟩, ?_⟩
  · intro tx' htx'
    rcases List.mem_cons.mp htx' with rfl | htx'
    · intro hn
      have := honce s n hs hn
      omega
    · exact hfree tx' htx'
  · intro m ⟨hsm, hm, hmfree⟩
    have hne : s ≠ m := by
      intro heq
      exact hmfree tx List.mem_cons_self (heq ▸ hs)
    exact hleast ⟨by omega, hm, fun tx' htx' => hmfree tx' (List.mem_cons_of_mem _ htx')⟩

/-- One that does not provide the current number provides no free one: what it
provides beyond, a later transaction would provide the current number after. -/
theorem isLeast_of_not_provides (hsorted : node.Ascending sender (tx :: pool)) (hs : ¬node.Provides sender tx s)
    (hlt : s < 2 ^ 64) (h : IsLeast (node.free sender pool s) n) :
    IsLeast (node.free sender (tx :: pool) s) n := by
  obtain ⟨⟨hle, hn, hfree⟩, hleast⟩ := h
  refine ⟨⟨hle, hn, ?_⟩, ?_⟩
  · intro tx' htx'
    rcases List.mem_cons.mp htx' with rfl | htx'
    · intro hprovides
      have hne : s ≠ n := by
        intro heq
        exact hs (heq ▸ hprovides)
      have htaken : ∃ later ∈ pool, node.Provides sender later s := by
        by_contra hnone
        have := hleast ⟨le_rfl, hlt, fun later hlater hp => hnone ⟨later, hlater, hp⟩⟩
        omega
      obtain ⟨later, hlater, hp⟩ := htaken
      have := (List.pairwise_cons.mp hsorted).1 later hlater n s hprovides hp
      omega
    · exact hfree tx' htx'
  · intro m ⟨hsm, hm, hmfree⟩
    exact hleast ⟨hsm, hm, fun tx' htx' => hmfree tx' (List.mem_cons_of_mem _ htx')⟩

theorem pastReady_isLeast (honce : ∀ tx ∈ pool, node.ProvidesOnce sender tx) (hsorted : node.Ascending sender pool)
    (hroom : (node.free sender pool s).Nonempty) :
    IsLeast (node.free sender pool s) (node.pastReady sender pool s) := by
  induction pool generalizing s with
  | nil =>
    obtain ⟨n, hsn, hn, _⟩ := hroom
    refine ⟨⟨le_rfl, by change s < _; omega, fun tx htx => absurd htx List.not_mem_nil⟩, ?_⟩
    intro m ⟨hm, _⟩
    exact hm
  | cons tx pool ih =>
    have honce' : ∀ tx' ∈ pool, node.ProvidesOnce sender tx' :=
      fun tx' htx' => honce tx' (List.mem_cons_of_mem _ htx')
    have hsorted' : node.Ascending sender pool := (List.pairwise_cons.mp hsorted).2
    obtain ⟨n, hsn, hn, hfree⟩ := hroom
    have hfree' : ∀ tx' ∈ pool, ¬node.Provides sender tx' n :=
      fun tx' htx' => hfree tx' (List.mem_cons_of_mem _ htx')
    unfold pastReady
    split
    · next hcontains =>
      have hs : node.Provides sender tx s := ⟨by omega, List.contains_iff_mem.mp hcontains⟩
      have hne : s ≠ n := by
        intro heq
        exact hfree tx List.mem_cons_self (heq ▸ hs)
      rw [Nat.mod_eq_of_lt (by omega : s + 1 < 2 ^ 64)]
      exact isLeast_of_provides (honce tx List.mem_cons_self) hs
        (ih honce' hsorted' ⟨n, by omega, hn, hfree'⟩)
    · next hcontains =>
      have hs : ¬node.Provides sender tx s := fun hp => hcontains (List.contains_iff_mem.mpr hp.2)
      exact isLeast_of_not_provides hsorted hs (by omega) (ih honce' hsorted' ⟨n, hsn, hn, hfree'⟩)

end Node

/-- **The next sequence number.** Where the sender's tags are in ascending order
and no transaction provides two of them, the node returns the least number from
the chain's on that no ready transaction provides, if there is one. -/
theorem getMqSeq_isLeast (node : Node) {pool : List Ready} {senderHex : String} {senderScl : Bytes}
    {sender : MessageOrigin} {seq : Option ℕ} (hhex : node.hexDecode senderHex = some senderScl)
    (hsender : node.decodeOrigin senderScl = some sender) (hseq : node.senderSequence sender = .ok seq)
    (honce : ∀ tx ∈ pool, node.ProvidesOnce sender tx) (hsorted : node.Ascending sender pool)
    (hroom : (node.free sender pool (seq.getD 0)).Nonempty) :
    ∃ n, node.getMqSeq pool senderHex = .ok n ∧ IsLeast (node.free sender pool (seq.getD 0)) n := by
  refine ⟨node.pastReady sender pool (seq.getD 0), ?_, Node.pastReady_isLeast honce hsorted hroom⟩
  unfold Node.getMqSeq
  simp only [hhex, Option.elim_some, pure_bind, hsender, hseq]
  rfl

/-! ## A pool -/

namespace Demo

/-- The gatekeepers' number is 5 on the chain. -/
def node : Node where
  hexDecode hex := if hex = "05" then some [5] else none
  decodeOrigin bytes := if bytes = [5] then some .gatekeeper else none
  encodeOrigin _ := [5]
  senderSequence _ := .ok (some 5)

/-- The number 5, a transaction of others, and the number 7. -/
def pool : List Ready := [⟨[node.tag .gatekeeper 5]⟩, ⟨[[1], [2]]⟩, ⟨[node.tag .gatekeeper 7]⟩]

theorem tag_mem {m n : ℕ} (hm : m < 2 ^ 64) (hn : n < 2 ^ 64)
    (h : node.tag .gatekeeper m ∈ [node.tag .gatekeeper n]) : m = n :=
  Node.tag_inj hm hn (List.mem_singleton.mp h)

theorem tag_not_mem (n : ℕ) : node.tag .gatekeeper n ∉ ([[1], [2]] : List Bytes) := by
  unfold Node.tag tagLabel
  simp

end Demo

theorem getMqSeq_isLeast_demo : 6 ∈ Demo.node.free .gatekeeper Demo.pool 5 := by
  have hfree : (6 : ℕ) ∈ Demo.node.free .gatekeeper Demo.pool 5 := by
    refine ⟨by decide, by decide, ?_⟩
    intro tx htx ⟨_, hmem⟩
    revert hmem
    revert tx
    decide
  have honce : ∀ tx ∈ Demo.pool, Demo.node.ProvidesOnce .gatekeeper tx := by
    intro tx htx m n ⟨hm, hmem⟩ ⟨hn, hmem'⟩
    rcases List.mem_cons.mp htx with rfl | htx
    · exact (Demo.tag_mem hm (by decide) hmem).trans (Demo.tag_mem hn (by decide) hmem').symm
    · rcases List.mem_cons.mp htx with rfl | htx
      · exact absurd hmem (Demo.tag_not_mem m)
      · rcases List.mem_singleton.mp htx with rfl
        exact (Demo.tag_mem hm (by decide) hmem).trans (Demo.tag_mem hn (by decide) hmem').symm
  have hsorted : Demo.node.Ascending .gatekeeper Demo.pool := by
    refine .cons ?_ (.cons ?_ (.cons (fun _ h => absurd h List.not_mem_nil) .nil))
    · intro tx htx m n ⟨hm, hmem⟩ ⟨hn, hmem'⟩
      have h5 := Demo.tag_mem hm (by decide) hmem
      rcases List.mem_cons.mp htx with rfl | htx
      · exact absurd hmem' (Demo.tag_not_mem n)
      · rcases List.mem_singleton.mp htx with rfl
        have h7 := Demo.tag_mem hn (by decide) hmem'
        omega
    · intro tx htx m n ⟨_, hmem⟩
      exact absurd hmem (Demo.tag_not_mem m)
  have hhex : Demo.node.hexDecode "05" = some [5] := rfl
  obtain ⟨n, hrun, hleast⟩ := getMqSeq_isLeast Demo.node hhex rfl rfl honce hsorted ⟨6, hfree⟩
  have hsix : Demo.node.getMqSeq Demo.pool "05" = .ok 6 := by decide
  cases hrun.symm.trans hsix
  exact hleast.1

/-- A transaction that provides two numbers, in order, counts once. -/
theorem getMqSeq_taken : Demo.node.senderSequence .gatekeeper = .ok (some 5) ∧
    Demo.node.Ascending .gatekeeper [⟨[Demo.node.tag .gatekeeper 5, Demo.node.tag .gatekeeper 6]⟩] ∧
    Demo.node.getMqSeq [⟨[Demo.node.tag .gatekeeper 5, Demo.node.tag .gatekeeper 6]⟩] "05" = .ok 6 ∧
    ¬IsLeast (Demo.node.free .gatekeeper [⟨[Demo.node.tag .gatekeeper 5, Demo.node.tag .gatekeeper 6]⟩] 5) 6 := by
  refine ⟨rfl, List.pairwise_singleton _ _, by decide, ?_⟩
  intro ⟨⟨_, _, hfree⟩, _⟩
  exact hfree _ (List.mem_singleton.mpr rfl) ⟨by decide, by decide⟩

end Khala.Mq
