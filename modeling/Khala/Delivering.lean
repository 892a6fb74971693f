/-
What the receivers of a dispatcher get.

A live receiver has one sender, under its topic: it has received, or has pending,
what was dispatched to its path since it subscribed (`Delivering`). Of what is
pending, one index is one message, since the dispatcher counts for all paths.
-/
import Khala.Dispatcher

namespace Khala.Dispatcher

open Mq (Message)

namespace System

/-! ## Delivery -/

def pending (s : System) (id : ChannelId) : List Item := (s.channels id).deque

/-- What was dispatched to the path of the receiver after it subscribed. -/
def sentTo (s : System) (id : ChannelId) : List Item :=
  (s.dispatched.drop (s.since id)).filter fun item => item.2.destination.path = s.topic id

/-- Each live receiver has one sender, under its topic, and has or had what was sent to it. What is pending has
ascending indices that are not given out again, and one index is one message. -/
structure Delivering (s : System) : Prop where
  nodup : ∀ path, (s.dispatcher.senders path).Nodup
  fresh : ∀ path, ∀ id ∈ s.dispatcher.senders path, id < s.nextChannel
  own : ∀ id, s.Live id → ∀ path, id ∈ s.dispatcher.senders path ↔ path = s.topic id
  held : ∀ id, s.Live id → (s.channels id).senderCount = 1
  since_le : ∀ id, s.Live id → s.since id ≤ s.dispatched.length
  exact : ∀ id, s.Live id → s.obtained id ++ s.pending id = s.sentTo id
  sorted : ∀ id, s.Live id → (s.pending id).Pairwise fun x y => x.1 < y.1
  below : ∀ id, s.Live id → ∀ item ∈ s.pending id, item.1 < s.dispatcher.localIndex
  agree : ∀ id id', s.Live id → s.Live id' → ∀ item ∈ s.pending id, ∀ item' ∈ s.pending id',
    item.1 = item'.1 → item = item'

variable {s s' : System} {path : Path} {id : ChannelId} {item : Item}

theorem senders_insert (d : MessageDispatcher) (ids : List ChannelId) (path' : Path) :
    MessageDispatcher.senders { d with subscribers := d.subscribers.insert path ids } path' =
      if path' = path then ids else d.senders path' := by
  unfold MessageDispatcher.senders
  dsimp only
  rw [StorageMap.lookup_insert_ite]
  split <;> rfl

/-! ### Sending -/

section SendAll

variable {ids : List ChannelId} {channels : ChannelId → Channel Item}

/-- One sender after the other. -/
theorem sendAll_cons : sendAll item (id :: ids) channels =
    if (channels id).receiverGone = true then sendAll item ids
    (Function.update channels id (channels id).dropSender)
    else
      let rest := sendAll item ids
        (Function.update channels id { channels id with deque := (channels id).deque ++ [item] })
      (id :: rest.1, rest.2.1 + 1, rest.2.2) := by
  rw [sendAll]
  by_cases h : (channels id).receiverGone = true
  · have hsend : (channels id).send item = (.error .receiverGone, channels id) := if_pos h
    simp only [hsend, h, if_true]
  · have hsend : (channels id).send item = (.ok (), { channels id with deque := (channels id).deque ++ [item] }) :=
      if_neg h
    simp only [hsend, if_neg h]

/-- A channel that is not sent to stays as it is. -/
theorem sendAll_channels_of_not_mem {j : ChannelId} (hj : j ∉ ids) :
    (sendAll item ids channels).2.2 j = channels j := by
  induction ids generalizing channels with
  | nil => rfl
  | cons id ids ih =>
    obtain ⟨hne, hj⟩ := not_or.mp (List.mem_cons.not.mp hj)
    rw [sendAll_cons]
    split
    · rw [ih hj, Function.update_of_ne hne]
    · dsimp only
      rw [ih hj, Function.update_of_ne hne]

/-- A live receiver gets the message once. -/
theorem sendAll_channels_of_mem (hnd : ids.Nodup) {j : ChannelId} (hj : j ∈ ids)
    (hlive : (channels j).receiverGone = false) :
    (sendAll item ids channels).2.2 j = { channels j with deque := (channels j).deque ++ [item] } := by
  induction ids generalizing channels with
  | nil => cases hj
  | cons id ids ih =>
    obtain ⟨hid, hnd⟩ := List.nodup_cons.mp hnd
    rw [sendAll_cons]
    rcases List.mem_cons.mp hj with rfl | hmem
    · rw [if_neg (by simp [hlive])]
      dsimp only
      rw [sendAll_channels_of_not_mem hid, Function.update_self]
    · have hne : j ≠ id := by
        intro he
        exact hid (he ▸ hmem)
      split
      · rw [ih hnd hmem (by rwa [Function.update_of_ne hne]), Function.update_of_ne hne]
      · dsimp only
        rw [ih hnd hmem (by rwa [Function.update_of_ne hne]), Function.update_of_ne hne]

/-- No receiver goes, and none comes back. -/
theorem sendAll_receiverGone (j : ChannelId) : ((sendAll item ids channels).2.2 j).receiverGone =
    (channels j).receiverGone := by
  induction ids generalizing channels with
  | nil => rfl
  | cons id ids ih =>
    rw [sendAll_cons]
    split
    · rw [ih]
      by_cases hj : j = id
      · subst hj
        rw [Function.update_self]
        rfl
      · rw [Function.update_of_ne hj]
    · dsimp only
      rw [ih]
      by_cases hj : j = id
      · subst hj
        rw [Function.update_self]
      · rw [Function.update_of_ne hj]

/-- The senders of the live receivers stay. -/
theorem sendAll_senders : (sendAll item ids channels).1 = ids.filter fun j => !(channels j).receiverGone := by
  induction ids generalizing channels with
  | nil => rfl
  | cons id ids ih =>
    have hgone (ch : Channel Item) (h : ch.receiverGone = (channels id).receiverGone) :
        ids.filter (fun j => !(Function.update channels id ch j).receiverGone) = ids.filter fun j =>
        !(channels j).receiverGone := by
      congr 1
      funext j
      by_cases hj : j = id
      · subst hj
        rw [Function.update_self, h]
      · rw [Function.update_of_ne hj]
    rw [sendAll_cons]
    split
    · next h =>
      rw [ih, hgone (channels id).dropSender rfl, List.filter_cons_of_neg (by simp [h])]
    · next h =>
      dsimp only
      rw [ih, hgone { channels id with deque := (channels id).deque ++ [item] } rfl,
        List.filter_cons_of_pos (by simp [h])]

end SendAll

/-- A dispatch leaves the live receivers live, and appends to those of its path. -/
structure Dispatched (s : System) (message : Message) (s' : System) : Prop where
  senders : ∀ path, s'.dispatcher.senders path =
    if path = message.destination.path then (s.dispatcher.senders path).filter fun id =>
    !(s.channels id).receiverGone
    else s.dispatcher.senders path
  localIndex : s'.dispatcher.localIndex = s.dispatcher.localIndex + 1
  nextChannel : s'.nextChannel = s.nextChannel
  gone : ∀ id, (s'.channels id).receiverGone = (s.channels id).receiverGone
  channels : ∀ id, (s.channels id).receiverGone = false → s'.channels id =
    if id ∈ s.dispatcher.senders message.destination.path then
      { s.channels id with deque := s.pending id ++ [(s.dispatcher.localIndex, message)] }
    else s.channels id
  topic : s'.topic = s.topic
  dispatched : s'.dispatched = s.dispatched ++ [(s.dispatcher.localIndex, message)]
  since : s'.since = s.since
  obtained : s'.obtained = s.obtained

theorem dispatch_dispatched (message : Message) (hnd : ∀ path, (s.dispatcher.senders path).Nodup) :
    Dispatched s message (s.dispatch message).2 := by
  have hnd := hnd message.destination.path
  unfold dispatch
  dsimp only
  cases hl : s.dispatcher.subscribers.lookup message.destination.path with
  | none =>
    have hsenders : s.dispatcher.senders message.destination.path = [] := by
      rw [MessageDispatcher.senders, hl]; rfl
    dsimp only
    refine ⟨fun path => ?_, rfl, rfl, fun _ => rfl, fun id _ => ?_, rfl, rfl, rfl, rfl⟩
    · change s.dispatcher.senders path = _
      split
      · next hpath => rw [hpath, hsenders, List.filter_nil]
      · rfl
    · rw [hsenders, if_neg List.not_mem_nil]
  | some ids =>
    have hsenders : s.dispatcher.senders message.destination.path = ids := by
      rw [MessageDispatcher.senders, hl]; rfl
    rw [hsenders] at hnd
    dsimp only
    refine ⟨fun path => ?_, rfl, rfl, sendAll_receiverGone, fun id hlive => ?_, rfl, rfl,
      rfl, rfl⟩
    · refine (senders_insert ⟨s.dispatcher.subscribers, s.dispatcher.localIndex + 1⟩ _ path).trans ?_
      split
      · next hpath => rw [sendAll_senders, hpath, hsenders]
      · rfl
    · rw [hsenders]
      split
      · next h => exact sendAll_channels_of_mem hnd h hlive
      · next h => exact sendAll_channels_of_not_mem h

/-! ### What the steps keep -/

theorem Idle.pending (h : s.Idle) (hlive : s.Live id) : s.pending id = [] := h id hlive.1 hlive.2

namespace Delivering

theorem empty : Delivering System.empty where
  nodup _ := List.nodup_nil
  fresh _ _ hid := by cases hid
  own _ hlive := absurd hlive.1 (Nat.not_lt_zero _)
  held _ hlive := absurd hlive.1 (Nat.not_lt_zero _)
  since_le _ hlive := absurd hlive.1 (Nat.not_lt_zero _)
  exact _ hlive := absurd hlive.1 (Nat.not_lt_zero _)
  sorted _ hlive := absurd hlive.1 (Nat.not_lt_zero _)
  below _ hlive := absurd hlive.1 (Nat.not_lt_zero _)
  agree _ _ hlive := absurd hlive.1 (Nat.not_lt_zero _)

/-- Receivers may go, and the rest is as it was, but for an index that may be reset while nothing is pending. -/
theorem frame (h : Delivering s) (hsenders : ∀ path, s'.dispatcher.senders path = s.dispatcher.senders path)
    (hnext : s'.nextChannel = s.nextChannel)
    (hlive : ∀ id, s'.Live id → s.Live id ∧ s'.channels id = s.channels id)
    (htopic : s'.topic = s.topic) (hdispatched : s'.dispatched = s.dispatched) (hsince : s'.since = s.since)
    (hobtained : s'.obtained = s.obtained) (hindex : s'.dispatcher.localIndex = s.dispatcher.localIndex ∨ s.Idle) :
    Delivering s' := by
  have hpending (id : ChannelId) (hid : s'.Live id) : s'.pending id = s.pending id := by
    rw [pending, (hlive id hid).2, pending]
  refine ⟨fun path => ?_, fun path id hid => ?_, fun id hid path => ?_, fun id hid => ?_,
    fun id hid => ?_, fun id hid => ?_,
    fun id hid => ?_, fun id hid item hitem => ?_, fun id id' hid hid' => ?_⟩
  · rw [hsenders]
    exact h.nodup path
  · rw [hsenders] at hid
    rw [hnext]
    exact h.fresh path id hid
  · rw [hsenders, htopic]
    exact h.own id (hlive id hid).1 path
  · rw [(hlive id hid).2]
    exact h.held id (hlive id hid).1
  · rw [hsince, hdispatched]
    exact h.since_le id (hlive id hid).1
  · rw [hobtained, hpending id hid, h.exact id (hlive id hid).1]
    unfold sentTo
    rw [hdispatched, hsince, htopic]
  · rw [hpending id hid]
    exact h.sorted id (hlive id hid).1
  · rw [hpending id hid] at hitem
    rcases hindex with heq | hidle
    · rw [heq]
      exact h.below id (hlive id hid).1 item hitem
    · rw [hidle.pending (hlive id hid).1] at hitem
      cases hitem
  · rw [hpending id hid, hpending id' hid']
    exact h.agree id id' (hlive id hid).1 (hlive id' hid').1

theorem subscribe (h : Delivering s) : Delivering (s.subscribe path) := by
  have hsenders (path' : Path) : (s.subscribe path).dispatcher.senders path' =
      if path' = path then s.dispatcher.senders path ++ [s.nextChannel] else s.dispatcher.senders path' :=
    senders_insert _ _ _
  have hnew (path' : Path) : s.nextChannel ∉ s.dispatcher.senders path' :=
    fun hmem => absurd (h.fresh path' _ hmem) (lt_irrefl _)
  -- the new receiver has nothing, and the others are as they were
  have hcases (id : ChannelId) (hid : (s.subscribe path).Live id) :
      id = s.nextChannel ∨ id ≠ s.nextChannel ∧ s.Live id := by
    obtain ⟨hlt, hgone⟩ := hid
    by_cases he : id = s.nextChannel
    · exact .inl he
    · rw [subscribe_channels, Function.update_of_ne he] at hgone
      exact .inr ⟨he, lt_of_le_of_ne (Nat.lt_succ_iff.mp hlt) he, hgone⟩
  have hpending_new : (s.subscribe path).pending s.nextChannel = [] := by
    rw [pending, subscribe_channels, Function.update_self]
    rfl
  have hpending {id : ChannelId} (he : id ≠ s.nextChannel) : (s.subscribe path).pending id = s.pending id := by
    rw [pending, subscribe_channels, Function.update_of_ne he, pending]
  refine ⟨fun path' => ?_, fun path' id hid => ?_, fun id hid path' => ?_, fun id hid => ?_, fun id hid => ?_,
    fun id hid => ?_, fun id hid => ?_, fun id hid item hitem => ?_,
    fun id id' hid hid' item hitem item' hitem' => ?_⟩
  · rw [hsenders]
    split
    · exact List.nodup_append.mpr ⟨h.nodup path, List.nodup_singleton _, fun a ha b hb => by
        rw [List.mem_singleton.mp hb]
        rintro rfl
        exact hnew path ha⟩
    · exact h.nodup path'
  · rw [hsenders] at hid
    change id < s.nextChannel + 1
    split at hid
    · rcases List.mem_append.mp hid with hmem | hmem
      · exact Nat.lt_succ_of_lt (h.fresh path id hmem)
      · rw [List.mem_singleton.mp hmem]
        exact Nat.lt_succ_self _
    · exact Nat.lt_succ_of_lt (h.fresh path' id hid)
  · rw [hsenders]
    rcases hcases id hid with rfl | ⟨he, hold⟩
    · rw [subscribe_topic, Function.update_self]
      split
      · next hp => simp [hp]
      · next hp => simp [hp, hnew]
    · rw [subscribe_topic, Function.update_of_ne he, ← h.own id hold]
      split
      · next hp => simp [hp, he]
      · rfl
  · rcases hcases id hid with rfl | ⟨he, hold⟩
    · rw [subscribe_channels, Function.update_self]
      rfl
    · rw [subscribe_channels, Function.update_of_ne he]
      exact h.held id hold
  · rcases hcases id hid with rfl | ⟨he, hold⟩
    · rw [subscribe_since, Function.update_self]
      exact le_refl _
    · rw [subscribe_since, Function.update_of_ne he]
      exact h.since_le id hold
  · rcases hcases id hid with rfl | ⟨he, hold⟩
    · rw [hpending_new, sentTo, subscribe_obtained, subscribe_since, Function.update_self, Function.update_self]
      change [] = (s.dispatched.drop s.dispatched.length).filter _
      rw [List.drop_length, List.filter_nil]
    · rw [hpending he, sentTo, subscribe_obtained, subscribe_since, subscribe_topic, Function.update_of_ne he,
        Function.update_of_ne he, Function.update_of_ne he]
      exact h.exact id hold
  · rcases hcases id hid with rfl | ⟨he, hold⟩
    · rw [hpending_new]
      exact .nil
    · rw [hpending he]
      exact h.sorted id hold
  · rcases hcases id hid with rfl | ⟨he, hold⟩
    · rw [hpending_new] at hitem
      cases hitem
    · rw [hpending he] at hitem
      exact h.below id hold item hitem
  · rcases hcases id hid with rfl | ⟨he, hold⟩
    · rw [hpending_new] at hitem
      cases hitem
    · rcases hcases id' hid' with rfl | ⟨he', hold'⟩
      · rw [hpending_new] at hitem'
        cases hitem'
      · rw [hpending he] at hitem
        rw [hpending he'] at hitem'
        exact h.agree id id' hold hold' item hitem item' hitem'

theorem dispatch (h : Delivering s) (message : Message) : Delivering (s.dispatch message).2 := by
  have hd := dispatch_dispatched message h.nodup
  generalize (s.dispatch message).2 = s' at hd
  have hlive (id : ChannelId) : s'.Live id ↔ s.Live id := by
    unfold Live
    rw [hd.nextChannel, hd.gone]
  -- the receivers of the path get the message, with an index above what is pending
  have hpending (id : ChannelId) (hid : s.Live id) : s'.pending id =
      s.pending id ++ if s.topic id = message.destination.path then
      [(s.dispatcher.localIndex, message)] else [] := by
    rw [pending, hd.channels id hid.2]
    have hown := h.own id hid message.destination.path
    by_cases hp : s.topic id = message.destination.path
    · rw [if_pos (hown.mpr hp.symm), if_pos hp]
    · rw [if_neg (mt hown.mp (Ne.symm hp)), if_neg hp, List.append_nil]
      rfl
  have hmem {id : ChannelId} (hid : s.Live id) {item : Item} (hitem : item ∈ s'.pending id) :
      item ∈ s.pending id ∨ item = (s.dispatcher.localIndex, message) := by
    rw [hpending id hid] at hitem
    rcases List.mem_append.mp hitem with hold | hnew
    · exact .inl hold
    · split at hnew
      · exact .inr (List.mem_singleton.mp hnew)
      · cases hnew
  refine ⟨fun path => ?_, fun path id hid => ?_, fun id hid path => ?_, fun id hid => ?_,
    fun id hid => ?_, fun id hid => ?_,
    fun id hid => ?_, fun id hid item hitem => ?_, fun id id' hid hid' item hitem item' hitem' he => ?_⟩
  · rw [hd.senders]
    split
    · exact (h.nodup path).filter _
    · exact h.nodup path
  · rw [hd.senders] at hid
    rw [hd.nextChannel]
    split at hid
    · exact h.fresh path id (List.mem_filter.mp hid).1
    · exact h.fresh path id hid
  · rw [hlive] at hid
    rw [hd.senders, hd.topic, ← h.own id hid path]
    split
    · rw [List.mem_filter]
      simp [hid.2]
    · rfl
  · rw [hlive] at hid
    rw [hd.channels id hid.2]
    split
    · exact h.held id hid
    · exact h.held id hid
  · rw [hlive] at hid
    rw [hd.since, hd.dispatched, List.length_append]
    exact (h.since_le id hid).trans (Nat.le_add_right _ _)
  · rw [hlive] at hid
    rw [hpending id hid, hd.obtained, ← List.append_assoc, h.exact id hid]
    unfold sentTo
    rw [hd.dispatched, hd.since, hd.topic, List.drop_append_of_le_length (h.since_le id hid), List.filter_append]
    congr 1
    by_cases hp : s.topic id = message.destination.path
    · rw [if_pos hp, List.filter_cons_of_pos (by simp [hp]), List.filter_nil]
    · rw [if_neg hp, List.filter_cons_of_neg (by simpa using Ne.symm hp), List.filter_nil]
  · rw [hlive] at hid
    rw [hpending id hid]
    refine List.pairwise_append.mpr ⟨h.sorted id hid, ?_, fun x hx y hy => ?_⟩
    · split
      · exact List.pairwise_singleton _ _
      · exact .nil
    · split at hy
      · rw [List.mem_singleton.mp hy]
        exact h.below id hid x hx
      · cases hy
  · rw [hlive] at hid
    rw [hd.localIndex]
    rcases hmem hid hitem with hold | rfl
    · exact Nat.lt_succ_of_lt (h.below id hid item hold)
    · exact Nat.lt_succ_self _
  · rw [hlive] at hid hid'
    rcases hmem hid hitem with hold | rfl
    · rcases hmem hid' hitem' with hold' | rfl
      · exact h.agree id id' hid hid' item hold item' hold' he
      · exact absurd he (h.below id hid item hold).ne
    · rcases hmem hid' hitem' with hold' | rfl
      · exact absurd he (h.below id' hid' item' hold').ne'
      · rfl

theorem dropReceiver (h : Delivering s) (id : ChannelId) : Delivering (s.dropReceiver id) := by
  refine h.frame (fun _ => rfl) rfl (fun j hj => ?_) rfl rfl rfl rfl (.inl rfl)
  have hne : j ≠ id := by
    rintro rfl
    have := hj.2
    rw [System.dropReceiver] at this
    dsimp only at this
    rw [Function.update_self] at this
    cases this
  have hch : (s.dropReceiver id).channels j = s.channels j := Function.update_of_ne hne ..
  refine ⟨⟨hj.1, ?_⟩, hch⟩
  rw [← hch]
  exact hj.2

theorem resetLocalIndex (h : Delivering s) (hidle : s.Idle) : Delivering s.resetLocalIndex :=
  h.frame (fun _ => rfl) rfl (fun _ hid => ⟨hid, rfl⟩) rfl rfl rfl rfl (.inr hidle)

end Delivering

/-- A channel is cleared, or left alone. -/
theorem clear_channels (s : System) (id : ChannelId) :
    s.clear.2.channels id = s.channels id ∨ s.clear.2.channels id = { s.channels id with deque := [] } := by
  unfold clear
  dsimp only
  generalize s.dispatcher.subscribers.entries.flatMap (fun entry => entry.2) = ids
  suffices h : ∀ acc : ℕ × (ChannelId → Channel Item),
      acc.2 id = s.channels id ∨ acc.2 id = { s.channels id with deque := [] } →
      ((ids.foldl
        (fun acc id => (acc.1 + ((acc.2 id).clear).1, Function.update acc.2 id ((acc.2 id).clear).2)) acc).2 id =
        s.channels id ∨ (ids.foldl (fun acc id => (acc.1 + ((acc.2 id).clear).1,
          Function.update acc.2 id ((acc.2 id).clear).2)) acc).2 id = { s.channels id with deque := [] }) from
    h (0, s.channels) (.inl rfl)
  induction ids with
  | nil => exact fun acc hacc => hacc
  | cons j ids ih =>
    intro acc hacc
    rw [List.foldl_cons]
    refine ih _ ?_
    dsimp only
    by_cases hj : id = j
    · subst hj
      rw [Function.update_self]
      rcases hacc with hacc | hacc
      · rw [hacc]
        exact .inr rfl
      · rw [hacc]
        exact .inr rfl
    · rwa [Function.update_of_ne hj]

/-- While nothing is pending, there is nothing to clear. -/
theorem clear_channels_idle (hidle : s.Idle) (hlive : s.Live id) : s.clear.2.channels id = s.channels id := by
  rcases clear_channels s id with hch | hch
  · exact hch
  · rw [hch, ← hidle.pending hlive]
    rfl

theorem clear_receiverGone (s : System) (id : ChannelId) :
    (s.clear.2.channels id).receiverGone = (s.channels id).receiverGone := by
  rcases clear_channels s id with hch | hch
  · rw [hch]
  · rw [hch]

theorem Delivering.clear (h : Delivering s) (hidle : s.Idle) : Delivering s.clear.2 := by
  refine h.frame (fun _ => rfl) rfl (fun id hid => ?_) rfl rfl rfl rfl (.inl rfl)
  have hlive : s.Live id := ⟨hid.1, (clear_receiverGone s id).symm.trans hid.2⟩
  exact ⟨hlive, clear_channels_idle hidle hlive⟩

/-! ### Receiving -/

/-- The receiver has taken the message before the rest. -/
def received (s : System) (id : ChannelId) (item : Item) (rest : List Item) : System := { s with
  channels := Function.update s.channels id { s.channels id with deque := rest }
  obtained := Function.update s.obtained id (s.obtained id ++ [item]) }

variable {rest : List Item}

@[simp] theorem received_channels : (s.received id item rest).channels =
    Function.update s.channels id { s.channels id with deque := rest } := rfl

@[simp] theorem received_obtained : (s.received id item rest).obtained =
    Function.update s.obtained id (s.obtained id ++ [item]) := rfl

theorem tryNext_cons (hp : s.pending id = item :: rest) :
    s.tryNext id = (.ok (some item), s.received id item rest) := by
  have hnext : (s.channels id).tryNext = (.ok (some item), { s.channels id with deque := rest }) := by
    rw [Channel.tryNext, show (s.channels id).deque = _ from hp]
  rw [System.tryNext, hnext]
  rfl

theorem tryNext_nil (hheld : (s.channels id).senderCount = 1) (hp : s.pending id = []) :
    s.tryNext id = (.ok none, s) := by
  have hnext : (s.channels id).tryNext = (.ok none, s.channels id) := by
    rw [Channel.tryNext, show (s.channels id).deque = _ from hp]
    dsimp only
    rw [hheld, if_neg one_ne_zero]
  rw [System.tryNext, hnext]
  dsimp only
  rw [List.append_nil, Function.update_eq_self, Function.update_eq_self]

theorem received_live {j : ChannelId} : (s.received id item rest).Live j ↔ s.Live j := by
  unfold Live
  rw [received_channels]
  by_cases hj : j = id
  · subst hj
    rw [Function.update_self]
    rfl
  · rw [Function.update_of_ne hj]
    rfl

theorem received_pending_self : (s.received id item rest).pending id = rest := by
  rw [pending, received_channels, Function.update_self]

theorem received_pending_of_ne {j : ChannelId} (hj : j ≠ id) :
    (s.received id item rest).pending j = s.pending j := by
  rw [pending, received_channels, Function.update_of_ne hj, pending]

theorem received_sublist (hp : s.pending id = item :: rest) (j : ChannelId) :
    ((s.received id item rest).pending j).Sublist (s.pending j) := by
  by_cases hj : j = id
  · subst hj
    rw [received_pending_self, hp]
    exact List.sublist_cons_self _ _
  · rw [received_pending_of_ne hj]

theorem Delivering.received (h : Delivering s) (hp : s.pending id = item :: rest) :
    Delivering (s.received id item rest) := by
  refine ⟨h.nodup, h.fresh, fun j hj => h.own j (received_live.mp hj), fun j hj => ?_,
    fun j hj => h.since_le j (received_live.mp hj), fun j hj => ?_, fun j hj => ?_, fun j hj x hx => ?_,
    fun j k hj hk x hx y hy => ?_⟩
  · rw [received_live] at hj
    by_cases he : j = id
    · subst he
      rw [received_channels, Function.update_self]
      exact h.held j hj
    · rw [received_channels, Function.update_of_ne he]
      exact h.held j hj
  · rw [received_live] at hj
    by_cases he : j = id
    · subst he
      rw [received_pending_self, received_obtained, Function.update_self, List.append_assoc,
        List.singleton_append, ← hp]
      exact h.exact j hj
    · rw [received_pending_of_ne he, received_obtained, Function.update_of_ne he]
      exact h.exact j hj
  · rw [received_live] at hj
    exact (h.sorted j hj).sublist (received_sublist hp j)
  · rw [received_live] at hj
    exact h.below j hj x ((received_sublist hp j).subset hx)
  · rw [received_live] at hj hk
    exact h.agree j k hj hk x ((received_sublist hp j).subset hx) y ((received_sublist hp k).subset hy)

theorem Delivering.tryNext (h : Delivering s) (hlive : s.Live id) : Delivering (s.tryNext id).2 := by
  cases hp : s.pending id with
  | nil =>
    rw [tryNext_nil (h.held id hlive) hp]
    exact h
  | cons item rest =>
    rw [tryNext_cons hp]
    exact h.received hp

theorem Delivering.step {op : Op} (h : Delivering s) (hok : s.Keeps op) : Delivering (s.exec op) := by
  cases op with
  | subscribe path => exact h.subscribe
  | dispatch message => exact h.dispatch message
  | dropReceiver id =>
    change Delivering (if s.Live id then s.dropReceiver id else s)
    split
    · exact h.dropReceiver id
    · exact h
  | tryNext id =>
    change Delivering (if s.Live id then (s.tryNext id).2 else s)
    split
    · next hlive => exact h.tryNext hlive
    · exact h
  | resetLocalIndex => exact h.resetLocalIndex hok
  | clear => exact h.clear hok

/-- Whatever is subscribed to, dispatched, dropped and received. -/
theorem Reachable.delivering (h : Reachable s) : Delivering s := by
  refine h.invariant Delivering ?_ ?_
  · rintro _ rfl
    exact .empty
  · rintro s op _ hs hok rfl
    exact hs.step hok

/-! ### Indices -/

/-- The next index is no more than the number of messages, and above what was given out to them it never was. -/
def Counted (s : System) : Prop :=
  s.dispatcher.localIndex ≤ s.dispatched.length ∧ ∀ item ∈ s.dispatched, item.1 < s.dispatched.length

theorem Counted.step {op : Op} (h : Counted s) (hs : Delivering s) : Counted (s.exec op) := by
  obtain ⟨hnext, hgiven⟩ := h
  cases op with
  | subscribe path => exact ⟨hnext, hgiven⟩
  | dispatch message =>
    have hd := dispatch_dispatched message hs.nodup
    change Counted (s.dispatch message).2
    unfold Counted
    rw [hd.localIndex, hd.dispatched, List.length_append, List.length_singleton]
    refine ⟨by omega, fun item hitem => ?_⟩
    rcases List.mem_append.mp hitem with hold | hnew
    · exact (hgiven item hold).trans (Nat.lt_succ_self _)
    · rw [List.mem_singleton.mp hnew]
      exact Nat.lt_succ_of_le hnext
  | dropReceiver id =>
    change Counted (if s.Live id then s.dropReceiver id else s)
    split
    · exact ⟨hnext, hgiven⟩
    · exact ⟨hnext, hgiven⟩
  | tryNext id =>
    change Counted (if s.Live id then (s.tryNext id).2 else s)
    split
    · exact ⟨hnext, hgiven⟩
    · exact ⟨hnext, hgiven⟩
  | resetLocalIndex => exact ⟨Nat.zero_le _, hgiven⟩
  | clear => exact ⟨hnext, hgiven⟩

/-- The indices fit 64 bits, unless as many messages are dispatched. -/
theorem Reachable.indices_lt (h : Reachable s) (hfew : s.dispatched.length < 2 ^ 64) :
    s.dispatcher.localIndex < 2 ^ 64 ∧ ∀ item ∈ s.dispatched, item.1 < 2 ^ 64 := by
  have hcounted : Delivering s ∧ Counted s := by
    refine h.invariant (fun s => Delivering s ∧ Counted s) ?_ ?_
    · rintro _ rfl
      exact ⟨.empty, le_rfl, nofun⟩
    · rintro s op _ ⟨hs, hc⟩ hok rfl
      exact ⟨hs.step hok, hc.step hs⟩
  obtain ⟨-, hnext, hgiven⟩ := hcounted
  exact ⟨hnext.trans_lt hfew, fun item hitem => (hgiven item hitem).trans hfew⟩

end System

end Khala.Dispatcher
