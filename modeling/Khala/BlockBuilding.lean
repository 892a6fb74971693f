/-
Building a block out of the pool (`check_seq.rs`).

The pool hands out transactions by their tags: one that requires a tag comes after
one that provides it, and no tag is provided twice. So a sender's messages come in
the order of their numbers, without a gap, and one is refused exactly where one
before it has erred.
-/
import Khala.MqDelivery

namespace Khala.Mq

open Call

variable {X : Type} {cfg : Config X} {c c' : Chain X} {sender : MessageOrigin} {origin : Option Bytes}
  {msg : SignedMessage}

/-! ## Blocks -/

inductive Extrinsic (X : Type)
  | message (origin : Option Bytes) (signedMessage : SignedMessage)
  /-- Any other one that syncs no message. One that wraps the call (`utility.batch`) is not matched by the
  extension, and left out. -/
  | other (rest : X) (outboundMessages : List Message)

namespace Extrinsic

/-- Whose message it is. -/
def sender? : Extrinsic X → Option MessageOrigin
  | .message _ msg => some msg.message.sender
  | .other .. => none

/-- Its number, if it is the sender's. -/
def number? (sender : MessageOrigin) : Extrinsic X → Option ℕ
  | .message _ msg => if msg.message.sender = sender then some msg.sequence else none
  | .other .. => none

/-- The tags that it provides, validated on `c`. -/
def provides (c : Chain X) : Extrinsic X → List (MessageOrigin × ℕ)
  | .message _ msg => match validate c msg with
    | .ok tags => tags.1
    | .error _ => []
  | .other .. => []

def apply (cfg : Config X) (c : Chain X) : Extrinsic X → Except Refusal Unit × Chain X
  | .message origin msg => submitTransaction cfg origin msg c
  | .other rest outboundMessages => (.ok (), { c with rest, outboundMessages })

end Extrinsic

structure Block (X : Type) where
  chain : Chain X
  outcomes : List (Extrinsic X × Except Refusal Unit)

def Block.push (cfg : Config X) (b : Block X) (x : Extrinsic X) : Block X :=
  ⟨(x.apply cfg b.chain).2, b.outcomes ++ [(x, (x.apply cfg b.chain).1)]⟩

/-- The extrinsics one after the other. -/
def build (cfg : Config X) (c : Chain X) (xs : List (Extrinsic X)) : Block X := xs.foldl (Block.push cfg) ⟨c, []⟩

theorem build_concat (xs : List (Extrinsic X)) (x : Extrinsic X) :
    build cfg c (xs ++ [x]) = (build cfg c xs).push cfg x := by
  unfold build
  rw [List.foldl_append]
  rfl

/-! ## The pool -/

/-- What the pool hands out, validated on `c`: each tag that is required is provided before, and none is twice. -/
inductive Pooled (c : Chain X) : List (Extrinsic X) → Prop
  | nil : Pooled c []
  | message {xs msg} {tags : List (MessageOrigin × ℕ) × List (MessageOrigin × ℕ)}
      (origin : Option Bytes) : Pooled c xs →
      validate c msg = .ok tags → (∀ tag ∈ tags.2, ∃ x ∈ xs, tag ∈ x.provides c) →
      (∀ tag ∈ tags.1, ∀ x ∈ xs, tag ∉ x.provides c) → Pooled c (xs ++ [.message origin msg])
  | other {xs rest outboundMessages} : Pooled c xs → Pooled c (xs ++ [.other rest outboundMessages])

theorem validate_ok {tags : List (MessageOrigin × ℕ) × List (MessageOrigin × ℕ)} (h : validate c msg = .ok tags) :
    c.expectedSeq msg.message.sender ≤ msg.sequence ∧ tags.1 = [(msg.message.sender, msg.sequence)] ∧
      (c.expectedSeq msg.message.sender < msg.sequence → (msg.message.sender, msg.sequence - 1) ∈ tags.2) := by
  unfold validate at h
  dsimp only at h
  split at h
  · cases h
  · next hge =>
    cases h
    refine ⟨by omega, rfl, fun hlt => ?_⟩
    dsimp only
    rw [if_pos hlt]
    exact List.mem_singleton.mpr rfl

/-- The sender's numbers, in their order. -/
def numbers (sender : MessageOrigin) (xs : List (Extrinsic X)) : List ℕ := xs.filterMap (Extrinsic.number? sender)

theorem numbers_concat_message (xs : List (Extrinsic X)) :
    numbers sender (xs ++ [.message origin msg]) =
      if msg.message.sender = sender then numbers sender xs ++ [msg.sequence] else numbers sender xs := by
  unfold numbers
  rw [List.filterMap_append]
  by_cases h : msg.message.sender = sender
  · simp [Extrinsic.number?, h]
  · simp [Extrinsic.number?, h]

theorem numbers_concat_other (xs : List (Extrinsic X)) (rest : X) (outboundMessages : List Message) :
    numbers sender (xs ++ [.other rest outboundMessages]) = numbers sender xs := by
  simp [numbers, Extrinsic.number?]

theorem provides_message {tags : List (MessageOrigin × ℕ) × List (MessageOrigin × ℕ)}
    (h : validate c msg = .ok tags) :
    (Extrinsic.message origin msg : Extrinsic X).provides c = [(msg.message.sender, msg.sequence)] := by
  simp only [Extrinsic.provides, h, (validate_ok h).2.1]

theorem provides_invalid {i : Invalid} (h : validate c msg = .error i) :
    (Extrinsic.message origin msg : Extrinsic X).provides c = [] := by
  simp only [Extrinsic.provides, h]

/-- A tag is provided by its message alone. -/
theorem mem_numbers_of_provides {xs : List (Extrinsic X)} {x : Extrinsic X} {k : ℕ} (hx : x ∈ xs)
    (h : (sender, k) ∈ x.provides c) : k ∈ numbers sender xs := by
  refine List.mem_filterMap.mpr ⟨x, hx, ?_⟩
  cases x with
  | other => exact absurd h List.not_mem_nil
  | message origin msg =>
    cases hvalid : validate c msg with
    | ok tags =>
      rw [provides_message hvalid, List.mem_singleton] at h
      cases h
      exact if_pos rfl
    | error i =>
      rw [provides_invalid hvalid] at h
      exact absurd h List.not_mem_nil

theorem Pooled.provides_of_mem_numbers {xs : List (Extrinsic X)} (h : Pooled c xs) {k : ℕ}
    (hk : k ∈ numbers sender xs) :
    ∃ x ∈ xs, (sender, k) ∈ x.provides c := by
  induction h with
  | nil => exact absurd hk List.not_mem_nil
  | other _ ih =>
    rw [numbers_concat_other] at hk
    obtain ⟨x, hx, hprovides⟩ := ih hk
    exact ⟨x, List.mem_append_left _ hx, hprovides⟩
  | @message xs msg tags origin _ hvalid _ _ ih =>
    have hold (hk : k ∈ numbers sender xs) : ∃ x ∈ xs ++ [.message origin msg], (sender, k) ∈ x.provides c := by
      obtain ⟨x, hx, hprovides⟩ := ih hk
      exact ⟨x, List.mem_append_left _ hx, hprovides⟩
    rw [numbers_concat_message] at hk
    split at hk
    · next hsender =>
      rcases List.mem_append.mp hk with hk | hk
      · exact hold hk
      · refine ⟨_, List.mem_append_right _ (List.mem_singleton.mpr rfl), ?_⟩
        rw [List.mem_singleton.mp hk, ← hsender, provides_message hvalid]
        exact List.mem_singleton.mpr rfl
    · exact hold hk

/-- A sender's messages come in the order of their numbers and without a gap, from the expected one on. -/
theorem Pooled.numbers_eq {xs : List (Extrinsic X)} (h : Pooled c xs) (sender : MessageOrigin) :
    numbers sender xs = List.range' (c.expectedSeq sender) (numbers sender xs).length := by
  induction h with
  | nil => rfl
  | other _ ih =>
    rw [numbers_concat_other]
    exact ih
  | @message xs msg tags origin hxs hvalid hrequired hdistinct ih =>
    rw [numbers_concat_message]
    split
    · next hsender =>
      obtain ⟨hge, hprovides, hrequires⟩ := validate_ok hvalid
      rw [hsender] at hge hprovides hrequires
      have hmem (k : ℕ) : k ∈ numbers sender xs ↔ c.expectedSeq sender ≤ k ∧
          k < c.expectedSeq sender + (numbers sender xs).length := by
        rw [ih, List.length_range']
        exact List.mem_range'_1
      have hnew : msg.sequence ∉ numbers sender xs := fun hk => by
        obtain ⟨x, hx, hx'⟩ := hxs.provides_of_mem_numbers hk
        exact hdistinct (sender, msg.sequence) (by rw [hprovides]; exact List.mem_singleton.mpr rfl) x hx hx'
      have hnext : msg.sequence = c.expectedSeq sender + (numbers sender xs).length := by
        rw [hmem] at hnew
        by_cases hlt : c.expectedSeq sender < msg.sequence
        · obtain ⟨x, hx, hx'⟩ := hrequired _ (hrequires hlt)
          have hbefore := (hmem _).mp (mem_numbers_of_provides hx hx')
          omega
        · omega
      rw [List.length_append, List.length_singleton, List.range'_concat, ← ih, hnext, Nat.one_mul]
    · exact ih

/-- The number of the message that comes next. -/
theorem Pooled.next {xs : List (Extrinsic X)} (h : Pooled c (xs ++ [.message origin msg])) :
    msg.sequence = c.expectedSeq msg.message.sender + (numbers msg.message.sender xs).length := by
  have hnumbers := h.numbers_eq msg.message.sender
  rw [numbers_concat_message, if_pos rfl, List.length_append, List.length_singleton, List.range'_concat]
    at hnumbers
  have hlast := (List.append_inj' hnumbers rfl).2
  rw [Nat.one_mul] at hlast
  exact List.singleton_inj.mp hlast

/-! ## Refusals -/

/-- A message whose turn it is is not refused; it may err in itself. -/
theorem submit_now (cfg : Config X) (origin : Option Bytes) (h : msg.sequence = c.expectedSeq msg.message.sender) :
    (∃ c', submitTransaction cfg origin msg c = (.ok (), c') ∧ Accepted cfg c msg c') ∨
      ∃ e, submitTransaction cfg origin msg c = (.error (.dispatch e), c) := by
  have hpre : preDispatch c msg = .ok () := by
    unfold preDispatch
    rw [h]
    simp
    rfl
  unfold submitTransaction
  rw [hpre]
  cases hsync : syncOffchainMessage cfg origin msg c with
  | mk r c' =>
    cases r with
    | ok => exact .inl ⟨c', rfl, syncOffchainMessage_ends.ok hsync⟩
    | error e =>
      rw [syncOffchainMessage_ends.error hsync]
      exact .inr ⟨e, rfl⟩

/-- One that comes too early is refused. -/
theorem submit_early (h : c.expectedSeq msg.message.sender < msg.sequence) :
    submitTransaction cfg origin msg c = (.error (.invalid .future), c) := by
  have hpre : preDispatch c msg = .error .future := by
    unfold preDispatch
    dsimp only
    rw [if_pos (by omega), if_neg (by omega)]
    rfl
  unfold submitTransaction
  rw [hpre]

/-- One of the sender's messages has erred. -/
def Failed (outcomes : List (Extrinsic X × Except Refusal Unit)) (sender : MessageOrigin) : Prop :=
  ∃ y ∈ outcomes, y.1.sender? = some sender ∧ ∃ e, y.2 = .error e

theorem failed_concat {outcomes : List (Extrinsic X × Except Refusal Unit)}
    {y : Extrinsic X × Except Refusal Unit} :
    Failed (outcomes ++ [y]) sender ↔ Failed outcomes sender ∨ y.1.sender? = some sender ∧
    ∃ e, y.2 = .error e := by
  unfold Failed
  constructor
  · rintro ⟨z, hz, h⟩
    rcases List.mem_append.mp hz with hz | hz
    · exact .inl ⟨z, hz, h⟩
    · rw [List.mem_singleton.mp hz] at h
      exact .inr h
  · rintro (⟨z, hz, h⟩ | h)
    · exact ⟨z, List.mem_append_left _ hz, h⟩
    · exact ⟨y, List.mem_append_right _ (List.mem_singleton.mpr rfl), h⟩

/-- Either all of the sender's messages are accepted, or one has erred and the number that is expected stays
behind. -/
def InTurn (c : Chain X) (xs : List (Extrinsic X)) (b : Block X) (sender : MessageOrigin) : Prop :=
  ¬Failed b.outcomes sender ∧ b.chain.expectedSeq sender = c.expectedSeq sender + (numbers sender xs).length ∨
    Failed b.outcomes sender ∧ b.chain.expectedSeq sender < c.expectedSeq sender + (numbers sender xs).length

/-- What another one's extrinsic leaves as it was. -/
theorem InTurn.other {xs : List (Extrinsic X)} {b : Block X} {x : Extrinsic X} (h : InTurn c xs b sender)
    (hx : x.sender? ≠ some sender) (hnumbers : numbers sender (xs ++ [x]) = numbers sender xs)
    (hseq : (x.apply cfg b.chain).2.expectedSeq sender = b.chain.expectedSeq sender) :
    InTurn c (xs ++ [x]) (b.push cfg x) sender := by
  have hfailed : Failed (b.push cfg x).outcomes sender ↔ Failed b.outcomes sender :=
    failed_concat.trans (or_iff_left fun h => hx h.1)
  unfold InTurn
  rw [hfailed, hnumbers]
  change ¬Failed b.outcomes sender ∧ (x.apply cfg b.chain).2.expectedSeq sender = _ ∨
    Failed b.outcomes sender ∧ (x.apply cfg b.chain).2.expectedSeq sender < _
  rw [hseq]
  exact h

/-- What comes of the sender's next message. -/
inductive Outcome (cfg : Config X) (b : Block X) (origin : Option Bytes) (msg : SignedMessage) : Prop
  | accepted {c' : Chain X} : ¬Failed b.outcomes msg.message.sender →
      submitTransaction cfg origin msg b.chain = (.ok (), c') → Accepted cfg b.chain msg c' →
      Outcome cfg b origin msg
  | errs {e : Error} : ¬Failed b.outcomes msg.message.sender →
      submitTransaction cfg origin msg b.chain = (.error (.dispatch e), b.chain) → Outcome cfg b origin msg
  | refused : Failed b.outcomes msg.message.sender →
      submitTransaction cfg origin msg b.chain = (.error (.invalid .future), b.chain) → Outcome cfg b origin msg

theorem InTurn.outcome (cfg : Config X) (origin : Option Bytes) {xs : List (Extrinsic X)} {b : Block X}
    (h : InTurn c xs b msg.message.sender)
    (hnext : msg.sequence = c.expectedSeq msg.message.sender + (numbers msg.message.sender xs).length) :
    Outcome cfg b origin msg := by
  rcases h with ⟨hnone, hseq⟩ | ⟨hfailed, hlt⟩
  · rcases submit_now cfg origin (hnext.trans hseq.symm) with ⟨c', hok, haccepted⟩ | ⟨e, herr⟩
    · exact .accepted hnone hok haccepted
    · exact .errs hnone herr
  · exact .refused hfailed (submit_early (by omega))

theorem InTurn.message {xs : List (Extrinsic X)} {b : Block X} (h : InTurn c xs b msg.message.sender)
    (hnext : msg.sequence = c.expectedSeq msg.message.sender + (numbers msg.message.sender xs).length) :
    InTurn c (xs ++ [.message origin msg]) (b.push cfg (.message origin msg)) msg.message.sender := by
  have hlength : (numbers msg.message.sender (xs ++ [.message origin msg])).length =
      (numbers msg.message.sender xs).length + 1 := by
    rw [numbers_concat_message, if_pos rfl, List.length_append, List.length_singleton]
  have hpush {r : Except Refusal Unit} {c' : Chain X}
      (hsubmit : submitTransaction cfg origin msg b.chain = (r, c')) :
      b.push cfg (.message origin msg) = ⟨c', b.outcomes ++ [(.message origin msg, r)]⟩ := by
    have happly : (Extrinsic.message origin msg).apply cfg b.chain = (r, c') := hsubmit
    unfold Block.push
    rw [happly]
  have herred {r : Refusal} (hsubmit : submitTransaction cfg origin msg b.chain = (.error r, b.chain))
      (hle : b.chain.expectedSeq msg.message.sender ≤ msg.sequence) :
      InTurn c (xs ++ [.message origin msg]) (b.push cfg (.message origin msg)) msg.message.sender := by
    rw [hpush hsubmit]
    refine .inr ⟨failed_concat.mpr (.inr ⟨rfl, r, rfl⟩), ?_⟩
    rw [hlength]
    change b.chain.expectedSeq _ < _
    omega
  have hseq : b.chain.expectedSeq msg.message.sender ≤ msg.sequence := by
    rcases h with ⟨-, h⟩ | ⟨-, h⟩ <;> omega
  cases h.outcome cfg origin hnext with
  | accepted hnone hok haccepted =>
    rw [hpush hok]
    refine .inl ⟨fun hfailed => ?_, ?_⟩
    · rcases failed_concat.mp hfailed with hold | ⟨-, e, he⟩
      · exact hnone hold
      · cases he
    · have hexpected := haccepted.expectedSeq msg.message.sender
      rw [if_pos rfl] at hexpected
      rw [hlength]
      change Chain.expectedSeq _ _ = _
      rw [hexpected, ← haccepted.sequence, hnext]
      omega
  | errs _ herr => exact herred herr hseq
  | refused _ herr => exact herred herr hseq

theorem Pooled.inTurn {xs : List (Extrinsic X)} (h : Pooled c xs) (sender : MessageOrigin) :
    InTurn c xs (build cfg c xs) sender := by
  induction h with
  | nil =>
    refine .inl ⟨?_, rfl⟩
    rintro ⟨y, hy, -⟩
    exact absurd hy List.not_mem_nil
  | other _ ih =>
    rw [build_concat]
    exact ih.other nofun (numbers_concat_other _ _ _) rfl
  | @message xs msg tags origin hxs hvalid hrequired hdistinct ih =>
    rw [build_concat]
    by_cases hsender : msg.message.sender = sender
    · subst hsender
      exact ih.message (Pooled.message origin hxs hvalid hrequired hdistinct).next
    · refine ih.other (fun h => hsender (Option.some.inj h)) ?_ ?_
      · rw [numbers_concat_message, if_neg hsender]
      · change (submitTransaction cfg origin msg _).2.expectedSeq sender = _
        have hends : (submitTransaction cfg origin msg).Ends (build cfg c xs).chain
            (fun _ c' => Accepted cfg (build cfg c xs).chain msg c') fun _ c' => c' = (build cfg c xs).chain :=
          submitTransaction_ends
        rcases accepted_or_eq hends with haccepted | heq
        · exact (haccepted.expectedSeq sender).trans (if_neg (Ne.symm hsender))
        · rw [heq]

/-- The last one of a block that is being built is refused for an error before it, and never as a stale one. -/
theorem Outcome.spec {b : Block X} (h : Outcome cfg b origin msg) :
    (submitTransaction cfg origin msg b.chain).1 ≠ .error (.invalid .stale) ∧
      ((submitTransaction cfg origin msg b.chain).1 = .error (.invalid .future) ↔
      Failed b.outcomes msg.message.sender) := by
  cases h with
  | accepted hnone hok => rw [hok]; exact ⟨nofun, nofun, fun h => absurd h hnone⟩
  | errs hnone herr => rw [herr]; exact ⟨nofun, nofun, fun h => absurd h hnone⟩
  | refused hfailed herr => rw [herr]; exact ⟨nofun, fun _ => hfailed, fun _ => rfl⟩

/-- **A message is refused for an error before it, and for nothing else.** In a block
built of what the pool hands out, whatever else stands between that syncs no message, a
message is never stale; and it is a future one exactly if a message of its sender before
it in the block has erred. The other ones are accepted, or err in themselves. -/
theorem refused_iff {xs : List (Extrinsic X)} (h : Pooled c xs) {i : ℕ} {r : Except Refusal Unit}
    (hi : (build cfg c xs).outcomes[i]? = some (.message origin msg, r)) :
    r ≠ .error (.invalid .stale) ∧ (r = .error (.invalid .future) ↔
      Failed ((build cfg c xs).outcomes.take i) msg.message.sender) := by
  induction h with
  | nil => cases hi
  | @other xs rest outboundMessages hxs ih =>
    rw [build_concat] at hi ⊢
    change ((build cfg c xs).outcomes ++ [_])[i]? = _ at hi
    rw [List.getElem?_append] at hi
    split at hi
    · next hlt =>
      change _ ∧ (_ ↔ Failed (((build cfg c xs).outcomes ++ [_]).take i) _)
      rw [List.take_append_of_le_length hlt.le]
      exact ih hi
    · have hlt := (List.getElem?_eq_some_iff.mp hi).1
      rw [List.length_singleton] at hlt
      rw [show i - (build cfg c xs).outcomes.length = 0 by omega] at hi
      cases hi
  | @message xs _ tags _ hxs hvalid hrequired hdistinct ih =>
    rw [build_concat] at hi ⊢
    change ((build cfg c xs).outcomes ++ [_])[i]? = _ at hi
    change _ ∧ (_ ↔ Failed (((build cfg c xs).outcomes ++ [_]).take i) _)
    rw [List.getElem?_append] at hi
    split at hi
    · next hlt =>
      rw [List.take_append_of_le_length hlt.le]
      exact ih hi
    · have hlt := (List.getElem?_eq_some_iff.mp hi).1
      rw [List.length_singleton] at hlt
      rw [show i - (build cfg c xs).outcomes.length = 0 by omega] at hi
      rw [show i = (build cfg c xs).outcomes.length by omega, List.take_left]
      cases hi
      have hnext := (Pooled.message origin hxs hvalid hrequired hdistinct).next
      exact ((hxs.inTurn msg.message.sender).outcome cfg origin hnext).spec

namespace Demo

/-- A message that the worker did not sign. -/
def forged : SignedMessage := { sent 0 with signature := List.replicate 64 9 }

/-- The worker's next one comes after it. -/
def handedOut : List (Extrinsic Unit) :=
  [] ++ [.message (some [7]) forged] ++ [.other () []] ++ [.message (some [7]) (sent 1)]

theorem handedOut_pooled : Pooled start.chain handedOut := by
  have hfirst : Pooled start.chain ([] ++ [.message (some [7]) forged]) :=
    .message (some [7]) .nil (rfl : validate start.chain forged = .ok ([(worker, 0)], []))
      (fun _ h => absurd h List.not_mem_nil) fun _ _ _ h => absurd h List.not_mem_nil
  refine .message (some [7]) (.other hfirst)
    (rfl : validate start.chain (sent 1) = .ok ([(worker, 1)], [(worker, 0)])) ?_ ?_
  · intro tag htag
    rw [List.mem_singleton.mp htag]
    exact ⟨.message (some [7]) forged, by simp, List.mem_singleton.mpr rfl⟩
  · intro tag htag x hx hmem
    rw [List.mem_singleton.mp htag] at hmem
    have hnumber := mem_numbers_of_provides hx hmem
    revert hnumber
    decide

end Demo

theorem Demo.refused : (build config start.chain handedOut).outcomes[2]? =
    some (.message (some [7]) (sent 1), .error (.invalid .future)) := by rfl

theorem refused_iff_demo :
    Failed ((build Demo.config Demo.start.chain Demo.handedOut).outcomes.take 2) Demo.worker :=
  (refused_iff Demo.handedOut_pooled Demo.refused).2.mp rfl

end Khala.Mq
