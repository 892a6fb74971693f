/-
Off-chain messages are delivered exactly once and in order.

Per sender, what was enqueued is a list whose positions are its numbers: the
chain has dispatched a prefix of it, of the length that it expects next, and
the queue keeps a suffix that starts no later.
-/
import Khala.Mq

namespace Khala.Mq

open Call

variable {X : Type} {cfg : Config X} {c c' : Chain X} {s s' : System X} {sender : MessageOrigin}
  {origin : Option Bytes} {msg : SignedMessage}

/-! ## What a submission does -/

/-- An accepted call. -/
structure Accepted (cfg : Config X) (c : Chain X) (msg : SignedMessage) (c' : Chain X) : Prop where
  sequence : msg.sequence = c.expectedSeq msg.message.sender
  checked : c.checkMessage cfg msg = .ok ()
  result : c' = (c.insertIngress msg.message.sender (c.expectedSeq msg.message.sender + 1)).dispatchMessage
    cfg msg.message

/-- The call is accepted, or errs and writes nothing. -/
theorem syncOffchainMessage_ends :
    (syncOffchainMessage cfg origin msg).Ends c (fun _ c' => Accepted cfg c msg c') fun _ c' => c' = c := by
  refine Ends.bind (Ends.ensure fun _ => rfl) ?_
  rintro _ _ ⟨-, rfl⟩
  refine Ends.bind (Ends.ensure fun _ => rfl) ?_
  rintro _ _ ⟨-, rfl⟩
  refine Ends.bind (Ends.ensure fun _ => rfl) ?_
  rintro _ c ⟨-, rfl⟩
  refine Ends.bind (Ends.read (T := fun chain c' => chain = c ∧ c' = c) ⟨rfl, rfl⟩) ?_
  rintro _ _ ⟨rfl, rfl⟩
  refine Ends.bind (Ends.ensure fun _ => rfl) ?_
  rintro _ c ⟨hseq, rfl⟩
  refine Ends.bind (Ends.lift fun _ _ => rfl) ?_
  rintro _ _ ⟨hcheck, rfl⟩
  exact ⟨hseq, hcheck, rfl⟩

theorem submitTransaction_ends :
    (submitTransaction cfg origin msg).Ends c (fun _ c' => Accepted cfg c msg c') fun _ c' => c' = c := by
  refine ends_of (fun _ c' h => ?_) fun e c' h => ?_
  · unfold submitTransaction at h
    split at h
    · cases h
    · split at h
      · next h' =>
        cases h
        exact syncOffchainMessage_ends.ok h'
      · cases h
  · unfold submitTransaction at h
    split at h
    · cases h
      rfl
    · split at h
      · cases h
      · next h' =>
        cases h
        exact syncOffchainMessage_ends.error h'

namespace Accepted

theorem dispatched (h : Accepted cfg c msg c') : c'.dispatched = c.dispatched ++ [msg.message] := by
  rw [h.result]
  rfl

theorem expectedSeq (h : Accepted cfg c msg c') (k : MessageOrigin) :
    c'.expectedSeq k = if k = msg.message.sender then c.expectedSeq k + 1 else c.expectedSeq k := by
  have hl : c'.offchainIngress.lookup k =
      if k = msg.message.sender then some (c.expectedSeq msg.message.sender + 1)
      else c.offchainIngress.lookup k := by
    rw [h.result]
    exact StorageMap.lookup_insert_ite _ _ _ _
  rw [Chain.expectedSeq, hl]
  split
  · next he =>
    rw [he]
    rfl
  · rfl

end Accepted

/-- A submission is accepted or writes nothing. -/
theorem accepted_or_eq {E : Type} {x : Call (Chain X) E Unit}
    (h : x.Ends c (fun _ c' => Accepted cfg c msg c') fun _ c' => c' = c) :
    Accepted cfg c msg (x c).2 ∨ (x c).2 = c := by
  cases hx : x c with
  | mk r c' =>
    cases r with
    | ok => exact .inl (h.ok hx)
    | error => exact .inr (h.error hx)

/-! ## The invariant -/

/-- The chain's messages of a sender. -/
def Chain.dispatchedFrom (c : Chain X) (sender : MessageOrigin) : List Message :=
  c.dispatched.filter fun message => message.sender = sender

/-- What one sender enqueued, what the chain dispatched of it, and what is kept. -/
structure Delivering (s : System X) (sender : MessageOrigin) : Prop where
  numbered : ∀ (i : ℕ) (sent : SignedMessage), (s.enqueued sender)[i]? = some sent → sent.sequence = i ∧
    sent.message.sender = sender
  counter : (s.queue sender).sequence = (s.enqueued sender).length ∧ (s.queue sender).dummy = false
  kept : ∃ j ≤ s.chain.expectedSeq sender, (s.queue sender).messages = (s.enqueued sender).drop j
  ingress : s.chain.expectedSeq sender ≤ (s.enqueued sender).length
  dispatched : s.chain.dispatchedFrom sender =
    ((s.enqueued sender).take (s.chain.expectedSeq sender)).map SignedMessage.message

/-- Dropping by number drops by position. -/
theorem filter_sequence {l : List SignedMessage} {j n : ℕ}
    (h : ∀ (i : ℕ) (sent : SignedMessage), l[i]? = some sent → sent.sequence = j + i) :
    (l.filter fun sent => sent.sequence ≥ n) = l.drop (n - j) := by
  induction l generalizing j with
  | nil => simp
  | cons x l ih =>
    have hx : x.sequence = j := h 0 x rfl
    have hrest := ih (j := j + 1) fun i sent hi => by
      have := h (i + 1) sent hi
      omega
    rw [List.filter_cons, hx, hrest]
    by_cases hj : j ≥ n
    · rw [if_pos (by simpa using hj), show n - j = 0 by omega, show n - (j + 1) = 0 by omega]
      rfl
    · rw [if_neg (by simpa using hj), show n - j = n - (j + 1) + 1 by omega]
      rfl

namespace Delivering

theorem genesis (h : Genesis s) : Delivering s sender := by
  have hexp : s.chain.expectedSeq sender = 0 := by simp [Chain.expectedSeq, h.chain.1]
  refine ⟨fun i sent hi => ?_, ?_, ⟨0, Nat.zero_le _, ?_⟩, ?_, ?_⟩
  · simp [h.enqueued] at hi
  · rw [h.queue, h.enqueued]
    exact ⟨rfl, rfl⟩
  · rw [h.queue, h.enqueued]
    rfl
  · rw [hexp]
    exact Nat.zero_le _
  · simp [Chain.dispatchedFrom, h.chain.2, hexp]

theorem pushData {payload toPath signature : Bytes} {who : MessageOrigin} (h : Delivering s sender) :
    Delivering (exec cfg s (.pushData who payload toPath signature)) sender := by
  by_cases he : sender = who
  · subst he
    have henq : (exec cfg s (.pushData sender payload toPath signature)).enqueued sender =
        s.enqueued sender ++ [signing sender payload toPath signature (s.queue sender).sequence] := if_pos rfl
    have hqueue : (exec cfg s (.pushData sender payload toPath signature)).queue sender =
        ⟨(s.queue sender).sequence + 1,
          (s.queue sender).messages ++ [signing sender payload toPath signature (s.queue sender).sequence],
          false⟩ := by
      refine (if_pos rfl).trans ?_
      rw [h.counter.2]
      rfl
    have hle := h.ingress
    refine ⟨fun i sent hi => ?_, ?_, ?_, ?_, ?_⟩
    · rw [henq, List.getElem?_append] at hi
      split at hi
      · exact h.numbered i sent hi
      · have hlast : i - (s.enqueued sender).length = 0 := by
          by_contra hne
          obtain ⟨k, hk⟩ := Nat.exists_eq_succ_of_ne_zero hne
          simp [hk] at hi
        rw [hlast] at hi
        cases hi
        refine ⟨?_, rfl⟩
        change (s.queue sender).sequence = i
        have hcounter := h.counter.1
        omega
    · rw [hqueue, henq, List.length_append]
      exact ⟨congrArg (· + 1) h.counter.1, rfl⟩
    · obtain ⟨j, hj, hkept⟩ := h.kept
      refine ⟨j, hj, ?_⟩
      rw [hqueue, henq, List.drop_append_of_le_length (hj.trans hle), hkept]
    · rw [henq, List.length_append]
      exact hle.trans (Nat.le_add_right _ _)
    · change s.chain.dispatchedFrom sender = (List.take (s.chain.expectedSeq sender) _).map _
      rw [henq, List.take_append_of_le_length hle]
      exact h.dispatched
  · have henq : (exec cfg s (.pushData who payload toPath signature)).enqueued sender =
        s.enqueued sender := if_neg he
    have hqueue : (exec cfg s (.pushData who payload toPath signature)).queue sender = s.queue sender := if_neg he
    exact ⟨henq ▸ h.numbered, by rw [hqueue, henq]; exact h.counter, by rw [hqueue, henq]; exact h.kept,
      by rw [henq]; exact h.ingress, by rw [henq]; exact h.dispatched⟩

theorem purge {next : MessageOrigin → ℕ} (h : Delivering s sender)
    (hn : next sender ≤ s.chain.expectedSeq sender) :
    Delivering (exec cfg s (.purge next)) sender := by
  refine ⟨h.numbered, h.counter, ?_, h.ingress, h.dispatched⟩
  obtain ⟨j, hj, hkept⟩ := h.kept
  refine ⟨j + (next sender - j), by change _ ≤ s.chain.expectedSeq sender; omega, ?_⟩
  change (s.queue sender).messages.filter _ = (s.enqueued sender).drop _
  rw [hkept, filter_sequence (j := j), List.drop_drop]
  intro i sent hi
  rw [List.getElem?_drop] at hi
  exact (h.numbered _ _ hi).1

/-- An accepted message is the next one of its sender. -/
theorem accepted (h : Delivering s sender) (hu : Unforged cfg s msg) (ha : Accepted cfg s.chain msg c') :
    Delivering { s with chain := c' } sender := by
  by_cases he : sender = msg.message.sender
  · subst he
    obtain ⟨sent, hmem, hmessage, hsequence⟩ := hu ha.checked
    obtain ⟨i, hi⟩ := List.mem_iff_getElem?.mp hmem
    have hexp : c'.expectedSeq msg.message.sender = s.chain.expectedSeq msg.message.sender + 1 :=
      (ha.expectedSeq _).trans (if_pos rfl)
    have hidx : i = s.chain.expectedSeq msg.message.sender := by
      rw [← (h.numbered i sent hi).1, hsequence, ha.sequence]
    subst hidx
    have hlt := (List.getElem?_eq_some_iff.mp hi).1
    refine ⟨h.numbered, h.counter, ?_, ?_, ?_⟩
    · obtain ⟨j, hj, hkept⟩ := h.kept
      exact ⟨j, by rw [hexp]; exact hj.trans (Nat.le_succ _), hkept⟩
    · rw [hexp]
      exact hlt
    · have hd := h.dispatched
      unfold Chain.dispatchedFrom at hd ⊢
      rw [ha.dispatched, List.filter_append, hd, hexp, List.take_add_one, hi, List.map_append]
      simp [hmessage]
  · have hexp : c'.expectedSeq sender = s.chain.expectedSeq sender := (ha.expectedSeq _).trans (if_neg he)
    refine ⟨h.numbered, h.counter, ?_, ?_, ?_⟩
    · rw [hexp]
      exact h.kept
    · rw [hexp]
      exact h.ingress
    · have hd := h.dispatched
      unfold Chain.dispatchedFrom at hd ⊢
      rw [ha.dispatched, List.filter_append, hd, hexp]
      simp [Ne.symm he]

/-- A submission, accepted or not. -/
theorem submission {E : Type} {x : Call (Chain X) E Unit} (h : Delivering s sender) (hu : Unforged cfg s msg)
    (hx : x.Ends s.chain (fun _ c' => Accepted cfg s.chain msg c') fun _ c' => c' = s.chain) :
    Delivering { s with chain := (x s.chain).2 } sender := by
  rcases accepted_or_eq hx with ha | he
  · exact h.accepted hu ha
  · rw [he]
    exact h

theorem step {op : Op X} (h : Delivering s sender) (hok : Admissible cfg s op) :
    Delivering (exec cfg s op) sender := by
  cases op with
  | pushData => exact h.pushData
  | submit origin msg => exact h.submission hok submitTransaction_ends
  | nested origin msg => exact h.submission hok syncOffchainMessage_ends
  | purge next => exact h.purge (hok sender)
  | other => exact ⟨h.numbered, h.counter, h.kept, h.ingress, h.dispatched⟩

/-- The numbers fit 64 bits, unless as many messages are sent. -/
theorem numbers_lt (h : Delivering s sender) (hfew : (s.enqueued sender).length < 2 ^ 64) :
    s.chain.expectedSeq sender < 2 ^ 64 ∧ (s.queue sender).sequence < 2 ^ 64 ∧
      ∀ sent ∈ s.enqueued sender, sent.sequence < 2 ^ 64 := by
  refine ⟨h.ingress.trans_lt hfew, h.counter.1.trans_lt hfew, fun sent hsent => ?_⟩
  obtain ⟨i, hi⟩ := List.mem_iff_getElem?.mp hsent
  obtain ⟨hlt, -⟩ := List.getElem?_eq_some_iff.mp hi
  exact (h.numbered i sent hi).1.trans_lt (hlt.trans hfew)

/-- No message is in the queue twice. -/
theorem nodup (h : Delivering s sender) : ((s.queue sender).messages.map SignedMessage.sequence).Nodup := by
  obtain ⟨j, _, hkept⟩ := h.kept
  have hrange : (s.enqueued sender).map SignedMessage.sequence = List.range (s.enqueued sender).length := by
    refine List.ext_getElem? fun i => ?_
    rw [List.getElem?_map]
    cases hi : (s.enqueued sender)[i]? with
    | none =>
      have hle := List.getElem?_eq_none_iff.mp hi
      rw [List.getElem?_eq_none (by simpa using hle)]
      rfl
    | some sent =>
      have hlt := (List.getElem?_eq_some_iff.mp hi).1
      rw [List.getElem?_range hlt, Option.map_some, (h.numbered i sent hi).1]
  rw [hkept, List.map_drop, hrange]
  exact List.nodup_range.sublist (List.drop_sublist _ _)

end Delivering

/-- The expected number of a sender never goes down. -/
theorem expectedSeq_mono (op : Op X) : s.chain.expectedSeq sender ≤ (exec cfg s op).chain.expectedSeq sender := by
  have hle {E : Type} {x : Call (Chain X) E Unit} {msg : SignedMessage}
      (hx : x.Ends s.chain (fun _ c' => Accepted cfg s.chain msg c') fun _ c' => c' = s.chain) :
      s.chain.expectedSeq sender ≤ (x s.chain).2.expectedSeq sender := by
    rcases accepted_or_eq hx with ha | he
    · rw [ha.expectedSeq]
      split
      · exact Nat.le_succ _
      · exact le_rfl
    · rw [he]
  cases op with
  | submit origin msg => exact hle submitTransaction_ends
  | nested origin msg => exact hle syncOffchainMessage_ends
  | _ => exact le_rfl

/-- Whose message it is that an operation sends or submits. -/
def Op.author : Op X → Option MessageOrigin
  | .pushData sender _ _ _ => some sender
  | .submit _ msg => some msg.message.sender
  | .nested _ msg => some msg.message.sender
  | _ => none

/-- A sender's messages do not touch another sender's queue, number or dispatched messages. -/
theorem exec_other {op : Op X} {who : MessageOrigin} (hop : op.author = some who) (hne : sender ≠ who) :
    (exec cfg s op).queue sender = s.queue sender ∧ (exec cfg s op).enqueued sender = s.enqueued sender ∧
      (exec cfg s op).chain.expectedSeq sender = s.chain.expectedSeq sender ∧
      (exec cfg s op).chain.dispatchedFrom sender = s.chain.dispatchedFrom sender := by
  have hchain {E : Type} {x : Call (Chain X) E Unit} {msg : SignedMessage} (hwho : sender ≠ msg.message.sender)
      (hx : x.Ends s.chain (fun _ c' => Accepted cfg s.chain msg c') fun _ c' => c' = s.chain) :
      (x s.chain).2.expectedSeq sender = s.chain.expectedSeq sender ∧
        (x s.chain).2.dispatchedFrom sender = s.chain.dispatchedFrom sender := by
    rcases accepted_or_eq hx with ha | he
    · refine ⟨(ha.expectedSeq sender).trans (if_neg hwho), ?_⟩
      unfold Chain.dispatchedFrom
      rw [ha.dispatched, List.filter_append]
      simp [Ne.symm hwho]
    · rw [he]
      exact ⟨rfl, rfl⟩
  cases op with
  | pushData =>
    cases hop
    exact ⟨if_neg hne, if_neg hne, rfl, rfl⟩
  | submit origin msg =>
    cases hop
    exact ⟨rfl, rfl, hchain hne submitTransaction_ends⟩
  | nested origin msg =>
    cases hop
    exact ⟨rfl, rfl, hchain hne syncOffchainMessage_ends⟩
  | purge => cases hop
  | other => cases hop

/-- **Off-chain messages are delivered exactly once and in order.** Of what a
sender enqueued, the chain has dispatched the first `k`, where `k` is the number
it expects next; every message is dispatched or still queued, none twice; a
submission that errs changes nothing on chain; and nobody's messages touch
another sender's. -/
theorem delivered_exactly_once (h : Reachable cfg s) (sender : MessageOrigin) :
    (s.chain.expectedSeq sender ≤ (s.enqueued sender).length ∧ s.chain.dispatchedFrom sender =
      ((s.enqueued sender).take (s.chain.expectedSeq sender)).map SignedMessage.message) ∧
    (∀ (i : ℕ) (sent : SignedMessage), (s.enqueued sender)[i]? = some sent →
      sent.sequence = i ∧ (i < s.chain.expectedSeq sender ∨ sent ∈ (s.queue sender).messages)) ∧
    (((s.queue sender).messages.map SignedMessage.sequence).Nodup ∧
      ∀ sent ∈ (s.queue sender).messages, sent ∈ s.enqueued sender) ∧
    (∀ origin msg, (∀ e c', submitTransaction cfg origin msg s.chain = (.error e, c') → c' = s.chain) ∧
      ∀ e c', syncOffchainMessage cfg origin msg s.chain = (.error e, c') → c' = s.chain) ∧
    ∀ (op : Op X) (who : MessageOrigin), op.author = some who → sender ≠ who →
      (exec cfg s op).queue sender = s.queue sender ∧ (exec cfg s op).enqueued sender = s.enqueued sender ∧
        (exec cfg s op).chain.expectedSeq sender = s.chain.expectedSeq sender ∧
        (exec cfg s op).chain.dispatchedFrom sender = s.chain.dispatchedFrom sender := by
  have hd : Delivering s sender := by
    refine h.invariant (fun s => Delivering s sender) (fun s hs => .genesis hs) ?_
    rintro s op _ hd hok rfl
    exact hd.step hok
  obtain ⟨j, hj, hkept⟩ := hd.kept
  refine ⟨⟨hd.ingress, hd.dispatched⟩, fun i sent hi =>
    ⟨(hd.numbered i sent hi).1, ?_⟩, ⟨hd.nodup, fun sent hs => ?_⟩,
    fun origin msg =>
      ⟨fun e c' hx => submitTransaction_ends.error hx, fun e c' hx => syncOffchainMessage_ends.error hx⟩,
    fun op who hop hne => exec_other hop hne⟩
  · by_cases hlt : i < s.chain.expectedSeq sender
    · exact .inl hlt
    · refine .inr ?_
      rw [hkept]
      refine List.mem_iff_getElem?.mpr ⟨i - j, ?_⟩
      rw [List.getElem?_drop, show j + (i - j) = i by omega]
      exact hi
  · rw [hkept] at hs
    exact List.mem_of_mem_drop hs

/-! ## A worker that sends two messages -/

namespace Demo

/-- Signatures of 64 bytes that repeat the number. -/
def config : Config Unit where
  contractKeys _ _ := none
  gatekeeperMasterPubkey _ := none
  verify signature data _ := signature = List.replicate 64 (UInt8.ofNat data.2)
  onMessageReceived rest _ := (rest, [])

def worker : MessageOrigin := .worker [1]

def sent (i : ℕ) : SignedMessage := signing worker [UInt8.ofNat i] [97] (List.replicate 64 (UInt8.ofNat i)) i

def start : System Unit := ⟨.empty, ⟨∅, [], (), []⟩, fun _ => []⟩

/-- Two messages are sent. -/
def pushed : System Unit :=
  [0, 1].foldl (fun s i => exec config s (.pushData worker [UInt8.ofNat i] [97] (sent i).signature)) start

/-- The first one is submitted twice, and purged. -/
def purged : System Unit :=
  let s := exec config (exec config pushed (.submit (some [7]) (sent 0))) (.nested (some [8]) (sent 0))
  exec config s (.purge s.chain.expectedSeq)

theorem purged_reachable : Reachable config purged := by
  have h₀ : Reachable config start := .init ⟨rfl, rfl, rfl, rfl⟩
  have hpush (s : System Unit) (i : ℕ) (h : Reachable config s) : Reachable config
      (exec config s (.pushData worker [UInt8.ofNat i] [97] (sent i).signature)) := .step h (by exact trivial) rfl
  have h₁ : Reachable config pushed := hpush _ 1 (hpush _ 0 h₀)
  have h₂ : Reachable config (exec config pushed (.submit (some [7]) (sent 0))) :=
    .step h₁ (by exact fun _ => ⟨sent 0, by decide, rfl, rfl⟩) rfl
  have h₃ : Reachable config
      (exec config (exec config pushed (.submit (some [7]) (sent 0))) (.nested (some [8]) (sent 0))) :=
    .step h₂ (by exact fun _ => ⟨sent 0, by decide, rfl, rfl⟩) rfl
  have hpurge (s : System Unit) : Admissible config s (.purge s.chain.expectedSeq) := fun _ => Nat.le_refl _
  exact .step h₃ (hpurge _) rfl

end Demo

theorem delivered_exactly_once_demo : Reachable Demo.config Demo.purged ∧
    Demo.purged.chain.dispatchedFrom Demo.worker = [(Demo.sent 0).message] ∧
    Demo.sent 1 ∈ (Demo.purged.queue Demo.worker).messages := by
  obtain ⟨⟨_, hdispatched⟩, hqueued, _⟩ := delivered_exactly_once Demo.purged_reachable Demo.worker
  have hone : Demo.purged.chain.expectedSeq Demo.worker = 1 := by decide
  rw [hone] at hdispatched hqueued
  exact ⟨Demo.purged_reachable, hdispatched, ((hqueued 1 (Demo.sent 1) rfl).2).resolve_left (by decide)⟩

end Khala.Mq
