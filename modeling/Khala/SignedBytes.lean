/-
The bytes that are signed, the bytes of a tag, and the equality and the order of
senders (`phala-mq`, `types.rs`; `check_seq.rs`).

All of them start from the SCALE encoding of a sender: the variant, then its
field. Senders are compared for equality by their encodings, and put in order by
the variants and the fields.
-/
import Khala.Mq
import Khala.MqSeq
import Khala.Scale

namespace Khala.Mq

/-! ## Senders -/

namespace MessageOrigin

/-- The place of the variant in the declaration. -/
def index : MessageOrigin → ℕ
  | .pallet _ => 0
  | .contract _ => 1
  | .worker _ => 2
  | .accountId _ => 3
  | .multiLocation _ => 4
  | .gatekeeper => 5

def field : MessageOrigin → Bytes
  | .pallet name => name
  | .contract id => id
  | .worker pubkey => pubkey
  | .accountId id => id
  | .multiLocation location => location
  | .gatekeeper => []

def encodeField : MessageOrigin → Option Bytes
  | .pallet name => Scale.encodeBytes name
  | .contract id => Scale.encodeFixed id
  | .worker pubkey => Scale.encodeFixed pubkey
  | .accountId id => Scale.encodeFixed id
  | .multiLocation location => Scale.encodeBytes location
  | .gatekeeper => Scale.encodeFixed []

def encode (origin : MessageOrigin) : Option Bytes := Scale.encodeVariant origin.index origin.encodeField

/-- `PartialEq`, by the encodings. -/
def eq (origin other : MessageOrigin) : Option Bool := do
  let encodedSelf ← origin.encode
  let encodedOther ← other.encode
  pure (encodedSelf == encodedOther)

/-- The derived `Ord`: the variants first, then the fields byte by byte. -/
def cmp (origin other : MessageOrigin) : Ordering :=
  (compare origin.index other.index).then (compare origin.field other.field)

/-- Hashes and keys have 32 bytes. -/
def Sized : MessageOrigin → Prop
  | .contract id => id.length = 32
  | .worker pubkey => pubkey.length = 32
  | .accountId id => id.length = 32
  | .pallet _ | .multiLocation _ | .gatekeeper => True

variable {a b : MessageOrigin} {e x y : Bytes}

theorem index_lt (a : MessageOrigin) : a.index < 6 := by
  cases a <;> simp [index]

theorem eq_of_field (hindex : a.index = b.index) (hfield : a.field = b.field) : a = b := by
  cases a <;> cases b <;> first | exact congrArg _ hfield | rfl | cases hindex

/-- Fields of one variant are told apart. -/
theorem field_prefixFree {ea eb : Bytes} (hindex : a.index = b.index) (ha : a.Sized) (hb : b.Sized)
    (hea : a.encodeField = some ea) (heb : b.encodeField = some eb) (h : ea ++ x = eb ++ y) :
    a.field = b.field ∧ x = y := by
  cases a <;> cases b <;> try cases hindex
  case pallet.pallet => exact Scale.PrefixFree.bytes trivial trivial hea heb h
  case contract.contract => exact Scale.PrefixFree.fixed 32 ha hb hea heb h
  case worker.worker => exact Scale.PrefixFree.fixed 32 ha hb hea heb h
  case accountId.accountId => exact Scale.PrefixFree.fixed 32 ha hb hea heb h
  case multiLocation.multiLocation => exact Scale.PrefixFree.bytes trivial trivial hea heb h
  case gatekeeper.gatekeeper => exact Scale.PrefixFree.fixed 0 rfl rfl hea heb h

theorem prefixFree : Scale.PrefixFree Sized encode := by
  intro a b ea eb x y ha hb hea heb h
  obtain ⟨fa, hfa, rfl⟩ := Scale.encodeVariant_eq_some.mp hea
  obtain ⟨fb, hfb, rfl⟩ := Scale.encodeVariant_eq_some.mp heb
  obtain ⟨hhead, htail⟩ := List.cons.inj h
  have hindex : a.index = b.index := by
    have hbyte := congrArg UInt8.toNat hhead
    rw [UInt8.toNat_ofNat', UInt8.toNat_ofNat'] at hbyte
    have hlt := a.index_lt
    have hlt' := b.index_lt
    omega
  obtain ⟨hfield, hrest⟩ := field_prefixFree hindex ha hb hfa hfb htail
  exact ⟨eq_of_field hindex hfield, hrest⟩

/-- Encoding panics at a field of `2^32` bytes only. -/
theorem encode_isSome (h : a.Sized) : a.encode.isSome ↔ a.field.length < 2 ^ 32 := by
  rw [encode, Scale.encodeVariant_isSome]
  have hfixed : ∀ {bytes : Bytes}, bytes.length = 32 →
      ((Scale.encodeFixed bytes).isSome ↔ bytes.length < 2 ^ 32) :=
    fun hlength => iff_of_true rfl (by omega)
  cases a with
  | pallet name => exact Scale.encodeBytes_isSome
  | contract id => exact hfixed h
  | worker pubkey => exact hfixed h
  | accountId id => exact hfixed h
  | multiLocation location => exact Scale.encodeBytes_isSome
  | gatekeeper => exact iff_of_true rfl (by decide)

theorem cmp_eq_iff : a.cmp b = .eq ↔ a = b := by
  unfold cmp
  rw [Ordering.then_eq_eq, Std.compare_eq_iff_eq, Std.compare_eq_iff_eq]
  constructor
  · intro ⟨hindex, hfield⟩
    exact eq_of_field hindex hfield
  · rintro rfl
    exact ⟨rfl, rfl⟩

/-- Where no encoding panics, the senders are equal if the order has them so. -/
theorem eq_eq_cmp (ha : a.Sized) (hb : b.Sized) : a.eq b =
    if a.field.length < 2 ^ 32 ∧ b.field.length < 2 ^ 32 then some (decide (a.cmp b = .eq)) else none := by
  have hencodes := encode_isSome ha
  have hencodes' := encode_isSome hb
  unfold eq
  cases hea : a.encode with
  | none =>
    rw [hea] at hencodes
    rw [if_neg fun h => absurd (hencodes.mpr h.1) Bool.false_ne_true]
    rfl
  | some ea =>
    cases heb : b.encode with
    | none =>
      rw [heb] at hencodes'
      rw [if_neg fun h => absurd (hencodes'.mpr h.2) Bool.false_ne_true]
      rfl
    | some eb =>
      have hiff : ea = eb ↔ a.cmp b = .eq := by
        rw [cmp_eq_iff]
        constructor
        · rintro rfl
          exact prefixFree.inj ha hb hea heb
        · rintro rfl
          exact Option.some.inj (hea.symm.trans heb)
      rw [hea] at hencodes
      rw [heb] at hencodes'
      rw [if_pos ⟨hencodes.mp rfl, hencodes'.mp rfl⟩]
      change some (ea == eb) = _
      rw [beq_eq_decide, decide_eq_decide.mpr hiff]

end MessageOrigin

/-! ## Messages -/

def Message.encode (message : Message) : Option Bytes :=
  Scale.encodePair MessageOrigin.encode (Scale.encodePair Scale.encodeBytes Scale.encodeBytes)
    (message.sender, message.destination.path, message.payload)

/-- `MessageToBeSigned`, encoded. -/
def SignedMessage.dataBeSigned (signed : SignedMessage) : Option Bytes :=
  Scale.encodePair Message.encode (Scale.encodeNat 8) (signed.message, signed.sequence)

theorem Message.prefixFree : Scale.PrefixFree (fun message : Message => message.sender.Sized) Message.encode := by
  intro a b ea eb x y ha hb hea heb h
  have hfields := MessageOrigin.prefixFree.pair (Scale.PrefixFree.bytes.pair Scale.PrefixFree.bytes)
  obtain ⟨heq, hrest⟩ := hfields ⟨ha, trivial, trivial⟩ ⟨hb, trivial, trivial⟩ hea heb h
  obtain ⟨sender, ⟨path⟩, payload⟩ := a
  obtain ⟨sender', ⟨path'⟩, payload'⟩ := b
  cases heq
  exact ⟨rfl, hrest⟩

/-- Signing panics at a field of `2^32` bytes only. -/
theorem SignedMessage.dataBeSigned_isSome {signed : SignedMessage} (h : signed.message.sender.Sized) :
    signed.dataBeSigned.isSome ↔ signed.message.sender.field.length < 2 ^ 32 ∧
      signed.message.destination.path.length < 2 ^ 32 ∧ signed.message.payload.length < 2 ^ 32 := by
  unfold dataBeSigned Message.encode
  rw [Scale.encodePair_isSome, Scale.encodePair_isSome, Scale.encodePair_isSome, MessageOrigin.encode_isSome h,
    Scale.encodeBytes_isSome, Scale.encodeBytes_isSome]
  exact and_iff_left rfl

/-- The tuple of the label, the sender and the number, encoded. -/
def tag (sender : MessageOrigin) (seq : ℕ) : Option Bytes :=
  Scale.encodePair Scale.encodeFixed (Scale.encodePair MessageOrigin.encode (Scale.encodeNat 8))
    (tagLabel, sender, seq)

/-- A tag panics at a sender's field of `2^32` bytes only. -/
theorem tag_isSome {sender : MessageOrigin} {seq : ℕ} (h : sender.Sized) :
    (tag sender seq).isSome ↔ sender.field.length < 2 ^ 32 := by
  unfold tag
  rw [Scale.encodePair_isSome, Scale.encodePair_isSome, MessageOrigin.encode_isSome h]
  exact (and_iff_right rfl).trans (and_iff_left rfl)

example : Scale.encodeBytes "PhalaMqOffchainMessages".toUTF8.data.toList = some tagLabel := by decide +kernel

/-- The tags that the node looks for in the pool. -/
theorem tag_eq_node (node : Node) {sender : MessageOrigin}
    (h : sender.encode = some (node.encodeOrigin sender)) (seq : ℕ) :
    tag sender seq = some (node.tag sender seq) := by
  refine Scale.encodePair_eq_some.mpr ⟨tagLabel, node.encodeOrigin sender ++ leBytes 8 seq, rfl, ?_, ?_⟩
  · exact Scale.encodePair_eq_some.mpr ⟨_, _, h, rfl, rfl⟩
  · exact (List.append_assoc _ _ _).symm

/-! ## What bytes determine -/

theorem dataBeSigned_inj {a b : SignedMessage} {bytes : Bytes} (ha : a.message.sender.Sized)
    (hb : b.message.sender.Sized)
    (hseqa : a.sequence < 2 ^ 64) (hseqb : b.sequence < 2 ^ 64) (hea : a.dataBeSigned = some bytes)
    (heb : b.dataBeSigned = some bytes) : a.message = b.message ∧ a.sequence = b.sequence := by
  have hsigned := Message.prefixFree.pair (Scale.PrefixFree.nat 8)
  have heq := hsigned.inj ⟨ha, by simpa using hseqa⟩ ⟨hb, by simpa using hseqb⟩ hea heb
  exact Prod.mk.inj heq

theorem tag_determines {sender sender' : MessageOrigin} {seq seq' : ℕ} {bytes : Bytes} (hs : sender.Sized)
    (hs' : sender'.Sized) (hseq : seq < 2 ^ 64) (hseq' : seq' < 2 ^ 64) (he : tag sender seq = some bytes)
    (he' : tag sender' seq' = some bytes) :
    sender = sender' ∧ seq = seq' := by
  have htag := (Scale.PrefixFree.fixed 24).pair (MessageOrigin.prefixFree.pair (Scale.PrefixFree.nat 8))
  have heq := htag.inj ⟨rfl, hs, by simpa using hseq⟩ ⟨rfl, hs', by simpa using hseq'⟩ he he'
  exact Prod.mk.inj (Prod.mk.inj heq).2

/-- **Signed bytes determine the message** and its number, tags determine the
sender and the number, and the senders that are equal by their encodings are those
that the order has equal. There are signed bytes and a tag unless a field has `2^32`
bytes. -/
theorem signedBytes_determine :
    (∀ (a b : SignedMessage) (bytes : Bytes), a.message.sender.Sized →
    b.message.sender.Sized → a.sequence < 2 ^ 64 →
      b.sequence < 2 ^ 64 → a.dataBeSigned = some bytes → b.dataBeSigned = some bytes →
      a.message.sender = b.message.sender ∧ a.message.destination = b.message.destination ∧
        a.message.payload = b.message.payload ∧ a.sequence = b.sequence) ∧
    (∀ (sender sender' : MessageOrigin) (seq seq' : ℕ) (bytes : Bytes), sender.Sized →
      sender'.Sized → seq < 2 ^ 64 →
      seq' < 2 ^ 64 → tag sender seq = some bytes → tag sender' seq' = some bytes →
        sender = sender' ∧ seq = seq') ∧
    (∀ a b : MessageOrigin, a.Sized → b.Sized → a.eq b =
      if a.field.length < 2 ^ 32 ∧ b.field.length < 2 ^ 32 then some (decide (a.cmp b = .eq)) else none) ∧
    (∀ signed : SignedMessage, signed.message.sender.Sized → (signed.dataBeSigned.isSome ↔
      signed.message.sender.field.length < 2 ^ 32 ∧ signed.message.destination.path.length < 2 ^ 32 ∧
        signed.message.payload.length < 2 ^ 32)) ∧
    ∀ (sender : MessageOrigin) (seq : ℕ), sender.Sized →
      ((tag sender seq).isSome ↔ sender.field.length < 2 ^ 32) := by
  refine ⟨?_, ?_, ?_, fun _ hs => SignedMessage.dataBeSigned_isSome hs, fun _ _ hs => tag_isSome hs⟩
  · intro a b bytes ha hb hseqa hseqb hea heb
    obtain ⟨hmessage, hsequence⟩ := dataBeSigned_inj ha hb hseqa hseqb hea heb
    rw [hmessage]
    exact ⟨rfl, rfl, rfl, hsequence⟩
  · intro sender sender' seq seq' bytes hs hs' hseq hseq' he he'
    exact tag_determines hs hs' hseq hseq' he he'
  · intro a b ha hb
    exact MessageOrigin.eq_eq_cmp ha hb

/-! ## A message of a worker -/

namespace SignedDemo

def worker : MessageOrigin := .worker (List.replicate 32 7)

def first : SignedMessage := ⟨⟨worker, ⟨[112]⟩, [1, 2, 3]⟩, 258, [1]⟩

/-- With another signature. -/
def second : SignedMessage := ⟨⟨worker, ⟨[112]⟩, [1, 2, 3]⟩, 258, [2]⟩

def bytes : Bytes :=
  [2] ++ List.replicate 32 7 ++ [4, 112] ++ [12, 1, 2, 3] ++ [2, 1, 0, 0, 0, 0, 0, 0]

end SignedDemo

/-- The signature is not signed; with the next number the bytes are others, and so is the tag. -/
theorem signedBytes_determine_demo :
    (SignedDemo.first.dataBeSigned = some SignedDemo.bytes ∧
    SignedDemo.second.dataBeSigned = some SignedDemo.bytes ∧
      SignedDemo.first.message.payload = SignedDemo.second.message.payload) ∧
    ({ SignedDemo.first with sequence := 259 } : SignedMessage).dataBeSigned ≠ some SignedDemo.bytes ∧
    tag SignedDemo.worker 258 ≠ tag SignedDemo.worker 259 ∧ SignedDemo.worker.eq .gatekeeper = some false := by
  obtain ⟨hsigned, htags, heq, -, htag⟩ := signedBytes_determine
  have hfirst : SignedDemo.first.dataBeSigned = some SignedDemo.bytes := by decide
  have hsecond : SignedDemo.second.dataBeSigned = some SignedDemo.bytes := by decide
  refine ⟨⟨hfirst, hsecond, ?_⟩, fun hnext => ?_, fun hnext => ?_, heq SignedDemo.worker .gatekeeper rfl trivial⟩
  · exact (hsigned SignedDemo.first SignedDemo.second _ rfl rfl (by decide) (by decide) hfirst hsecond).2.2.1
  · have hnumber :=
      (hsigned SignedDemo.first { SignedDemo.first with sequence := 259 } _ rfl rfl (by decide) (by decide)
      hfirst hnext).2.2.2
    exact absurd hnumber (by decide)
  · obtain ⟨bytes, hbytes⟩ := Option.isSome_iff_exists.mp ((htag SignedDemo.worker 258 rfl).mpr (by decide))
    have hnumber := (htags SignedDemo.worker SignedDemo.worker 258 259 bytes rfl rfl (by decide) (by decide) hbytes
      (hnext ▸ hbytes)).2
    exact absurd hnumber (by decide)

end Khala.Mq
