/-
The receivers of a dispatcher do not affect each other: whether one is dropped
makes no difference to the others, in whatever way the run goes on.
-/
import Khala.Delivering

namespace Khala.Dispatcher

open Mq (Message)

namespace System

variable {s s' : System} {id : ChannelId} {item : Item} {rest : List Item}

/-- The same to all receivers but one, which is gone. -/
structure SameBut (id : ChannelId) (s s' : System) : Prop where
  known : id < s.nextChannel
  dead : (s'.channels id).receiverGone = true
  localIndex : s'.dispatcher.localIndex = s.dispatcher.localIndex
  nextChannel : s'.nextChannel = s.nextChannel
  topic : s'.topic = s.topic
  dispatched : s'.dispatched = s.dispatched
  gone : ∀ j ≠ id, (s'.channels j).receiverGone = (s.channels j).receiverGone
  channels : ∀ j ≠ id, s.Live j → s'.channels j = s.channels j
  obtained : ∀ j ≠ id, s'.obtained j = s.obtained j

namespace SameBut

theorem live_iff (h : SameBut id s s') {j : ChannelId} (hj : j ≠ id) : s'.Live j ↔ s.Live j := by
  unfold Live
  rw [h.nextChannel, h.gone j hj]

theorem not_live (h : SameBut id s s') : ¬s'.Live id := by
  intro hlive
  have := hlive.2
  rw [h.dead] at this
  cases this

theorem pending (h : SameBut id s s') {j : ChannelId} (hj : j ≠ id) (hlive : s.Live j) :
    s'.pending j = s.pending j := by
  rw [System.pending, h.channels j hj hlive, System.pending]

theorem dropReceiver (hlive : s.Live id) : SameBut id s (s.dropReceiver id) where
  known := hlive.1
  dead := by
    change (Function.update s.channels id (s.channels id).dropReceiver id).receiverGone = true
    rw [Function.update_self]
    rfl
  localIndex := rfl
  nextChannel := rfl
  topic := rfl
  dispatched := rfl
  gone j hj := by
    change (Function.update s.channels id (s.channels id).dropReceiver j).receiverGone = _
    rw [Function.update_of_ne hj]
  channels j hj _ := Function.update_of_ne hj ..
  obtained _ _ := rfl

theorem idle (h : SameBut id s s') (hidle : s.Idle) : s'.Idle := by
  intro j hlt hgone
  by_cases hj : j = id
  · subst hj
    exact absurd ⟨hlt, hgone⟩ h.not_live
  · have hlive := (h.live_iff hj).mp ⟨hlt, hgone⟩
    rw [h.channels j hj hlive]
    exact hidle.pending hlive

theorem subscribe (h : SameBut id s s') (path : Path) : SameBut id (s.subscribe path) (s'.subscribe path) := by
  have hne : id ≠ s.nextChannel := h.known.ne
  refine ⟨Nat.lt_succ_of_lt h.known, ?_, h.localIndex, congrArg (· + 1) h.nextChannel, ?_,
    h.dispatched, fun j hj => ?_,
    fun j hj hlive => ?_, fun j hj => ?_⟩
  · rw [subscribe_channels, h.nextChannel, Function.update_of_ne hne]
    exact h.dead
  · rw [subscribe_topic, subscribe_topic, h.topic, h.nextChannel]
  · rw [subscribe_channels, subscribe_channels, h.nextChannel]
    by_cases he : j = s.nextChannel
    · rw [he, Function.update_self, Function.update_self]
    · rw [Function.update_of_ne he, Function.update_of_ne he]
      exact h.gone j hj
  · rw [subscribe_channels, subscribe_channels, h.nextChannel]
    by_cases he : j = s.nextChannel
    · rw [he, Function.update_self, Function.update_self]
    · rw [Function.update_of_ne he, Function.update_of_ne he]
      obtain ⟨hlt, hgone⟩ := hlive
      rw [subscribe_channels, Function.update_of_ne he] at hgone
      exact h.channels j hj ⟨lt_of_le_of_ne (Nat.lt_succ_iff.mp hlt) he, hgone⟩
  · rw [subscribe_obtained, subscribe_obtained, h.nextChannel]
    by_cases he : j = s.nextChannel
    · rw [he, Function.update_self, Function.update_self]
    · rw [Function.update_of_ne he, Function.update_of_ne he]
      exact h.obtained j hj

theorem dispatch (h : SameBut id s s') (hs : Delivering s) (hs' : Delivering s') (message : Message) :
    SameBut id (s.dispatch message).2 (s'.dispatch message).2 := by
  have hd := dispatch_dispatched message hs.nodup
  have hd' := dispatch_dispatched message hs'.nodup
  generalize (s.dispatch message).2 = t at hd
  generalize (s'.dispatch message).2 = t' at hd'
  refine ⟨?_, ?_, ?_, ?_, ?_, ?_, fun j hj => ?_, fun j hj hlive => ?_, fun j hj => ?_⟩
  · rw [hd.nextChannel]
    exact h.known
  · rw [hd'.gone]
    exact h.dead
  · rw [hd.localIndex, hd'.localIndex, h.localIndex]
  · rw [hd.nextChannel, hd'.nextChannel, h.nextChannel]
  · rw [hd.topic, hd'.topic, h.topic]
  · rw [hd.dispatched, hd'.dispatched, h.dispatched, h.localIndex]
  · rw [hd.gone, hd'.gone, h.gone j hj]
  · have hold : s.Live j := ⟨hd.nextChannel ▸ hlive.1, (hd.gone j).symm.trans hlive.2⟩
    have hold' := (h.live_iff hj).mpr hold
    -- both send to the receiver if it is one of the path
    have hmem : j ∈ s'.dispatcher.senders message.destination.path ↔
        j ∈ s.dispatcher.senders message.destination.path := by
      rw [hs.own j hold, hs'.own j hold', h.topic]
    rw [hd.channels j hold.2, hd'.channels j hold'.2, h.pending hj hold, h.channels j hj hold, h.localIndex]
    by_cases hin : j ∈ s.dispatcher.senders message.destination.path
    · rw [if_pos hin, if_pos (hmem.mpr hin)]
    · rw [if_neg hin, if_neg (mt hmem.mp hin)]
  · rw [hd.obtained, hd'.obtained, h.obtained j hj]

theorem received (h : SameBut id s s') {j : ChannelId} (hj : j ≠ id) (hlive : s.Live j) :
    SameBut id (s.received j item rest) (s'.received j item rest) := by
  refine ⟨h.known, ?_, h.localIndex, h.nextChannel, h.topic, h.dispatched, fun k hk => ?_, fun k hk hlive' => ?_,
    fun k hk => ?_⟩
  · rw [received_channels, Function.update_of_ne (Ne.symm hj)]
    exact h.dead
  · rw [received_channels, received_channels]
    by_cases he : k = j
    · subst he
      rw [Function.update_self, Function.update_self]
      exact h.gone k hk
    · rw [Function.update_of_ne he, Function.update_of_ne he]
      exact h.gone k hk
  · rw [received_channels, received_channels, h.channels j hj hlive]
    by_cases he : k = j
    · subst he
      rw [Function.update_self, Function.update_self]
    · rw [Function.update_of_ne he, Function.update_of_ne he]
      exact h.channels k hk (received_live.mp hlive')
  · rw [received_obtained, received_obtained, h.obtained j hj]
    by_cases he : k = j
    · subst he
      rw [Function.update_self, Function.update_self]
    · rw [Function.update_of_ne he, Function.update_of_ne he]
      exact h.obtained k hk

theorem tryNext (h : SameBut id s s') (hs : Delivering s) (hs' : Delivering s') {j : ChannelId} (hj : j ≠ id)
    (hlive : s.Live j) : SameBut id (s.tryNext j).2 (s'.tryNext j).2 := by
  have hpending := h.pending hj hlive
  cases hp : s.pending j with
  | nil =>
    rw [hp] at hpending
    rw [tryNext_nil (hs.held j hlive) hp, tryNext_nil (hs'.held j ((h.live_iff hj).mpr hlive)) hpending]
    exact h
  | cons item rest =>
    rw [hp] at hpending
    rw [tryNext_cons hp, tryNext_cons hpending]
    exact h.received hj hlive

/-- The one may be received from, where it is not gone. -/
theorem tryNext_left (h : SameBut id s s') (hs : Delivering s) (hlive : s.Live id) :
    SameBut id (s.tryNext id).2 s' := by
  cases hp : s.pending id with
  | nil =>
    rw [tryNext_nil (hs.held id hlive) hp]
    exact h
  | cons item rest =>
    rw [tryNext_cons hp]
    refine ⟨h.known, h.dead, h.localIndex, h.nextChannel, h.topic, h.dispatched,
      fun k hk => ?_, fun k hk hlive' => ?_,
      fun k hk => ?_⟩
    · rw [received_channels, Function.update_of_ne hk]
      exact h.gone k hk
    · rw [received_channels, Function.update_of_ne hk]
      exact h.channels k hk (received_live.mp hlive')
    · rw [received_obtained, Function.update_of_ne hk]
      exact h.obtained k hk

theorem dropReceiver_both (h : SameBut id s s') {j : ChannelId} (hj : j ≠ id) :
    SameBut id (s.dropReceiver j) (s'.dropReceiver j) := by
  have hself (t : System) : (t.dropReceiver j).channels j = (t.channels j).dropReceiver := Function.update_self ..
  have hother (t : System) {k : ChannelId} (hk : k ≠ j) : (t.dropReceiver j).channels k = t.channels k :=
    Function.update_of_ne hk ..
  refine ⟨h.known, ?_, h.localIndex, h.nextChannel, h.topic, h.dispatched, fun k hk => ?_,
    fun k hk hlive => ?_, h.obtained⟩
  · rw [hother s' (Ne.symm hj)]
    exact h.dead
  · by_cases he : k = j
    · subst he
      rw [hself, hself]
      rfl
    · rw [hother s he, hother s' he]
      exact h.gone k hk
  · by_cases he : k = j
    · subst he
      have := hlive.2
      rw [hself] at this
      cases this
    · rw [hother s he, hother s' he]
      exact h.channels k hk ⟨hlive.1, hother s he ▸ hlive.2⟩

theorem dropReceiver_left (h : SameBut id s s') : SameBut id (s.dropReceiver id) s' := by
  have hother {k : ChannelId} (hk : k ≠ id) : (s.dropReceiver id).channels k = s.channels k :=
    Function.update_of_ne hk ..
  refine ⟨h.known, h.dead, h.localIndex, h.nextChannel, h.topic, h.dispatched,
    fun k hk => ?_, fun k hk hlive => ?_,
    h.obtained⟩
  · rw [hother hk]
    exact h.gone k hk
  · rw [hother hk]
    exact h.channels k hk ⟨hlive.1, hother hk ▸ hlive.2⟩

end SameBut

theorem SameBut.clear (h : SameBut id s s') (hidle : s.Idle) : SameBut id s.clear.2 s'.clear.2 := by
  refine ⟨h.known, ?_, h.localIndex, h.nextChannel, h.topic, h.dispatched, fun j hj => ?_,
    fun j hj hlive => ?_, h.obtained⟩
  · rw [clear_receiverGone]
    exact h.dead
  · rw [clear_receiverGone, clear_receiverGone, h.gone j hj]
  · have hold : s.Live j := ⟨hlive.1, (clear_receiverGone s j).symm.trans hlive.2⟩
    rw [clear_channels_idle hidle hold, clear_channels_idle (h.idle hidle) ((h.live_iff hj).mpr hold),
      h.channels j hj hold]

theorem SameBut.step (h : SameBut id s s') (hs : Delivering s) (hs' : Delivering s') {op : Op} (hok : s.Keeps op) :
    SameBut id (s.exec op) (s'.exec op) ∧ s'.Keeps op := by
  cases op with
  | subscribe path => exact ⟨h.subscribe path, trivial⟩
  | dispatch message => exact ⟨h.dispatch hs hs' message, trivial⟩
  | dropReceiver j =>
    refine ⟨?_, trivial⟩
    change SameBut id (if s.Live j then s.dropReceiver j else s) (if s'.Live j then s'.dropReceiver j else s')
    by_cases hj : j = id
    · subst hj
      rw [if_neg h.not_live]
      split
      · exact h.dropReceiver_left
      · exact h
    · by_cases hlive : s.Live j
      · rw [if_pos hlive, if_pos ((h.live_iff hj).mpr hlive)]
        exact h.dropReceiver_both hj
      · rw [if_neg hlive, if_neg (mt (h.live_iff hj).mp hlive)]
        exact h
  | tryNext j =>
    refine ⟨?_, trivial⟩
    change SameBut id (if s.Live j then (s.tryNext j).2 else s) (if s'.Live j then (s'.tryNext j).2 else s')
    by_cases hj : j = id
    · subst hj
      rw [if_neg h.not_live]
      split
      · next hlive => exact h.tryNext_left hs hlive
      · exact h
    · by_cases hlive : s.Live j
      · rw [if_pos hlive, if_pos ((h.live_iff hj).mpr hlive)]
        exact h.tryNext hs hs' hj hlive
      · rw [if_neg hlive, if_neg (mt (h.live_iff hj).mp hlive)]
        exact h
  | resetLocalIndex =>
    exact ⟨⟨h.known, h.dead, rfl, h.nextChannel, h.topic, h.dispatched, h.gone, h.channels, h.obtained⟩,
      h.idle hok⟩
  | clear => exact ⟨h.clear hok, h.idle hok⟩

/-- However the run goes on. -/
theorem SameBut.run (h : SameBut id s s') (hs : Delivering s) (hs' : Delivering s') {ops : List Op}
    (hok : ReachWhere.okAlong exec Keeps s ops = true) : SameBut id (ops.foldl exec s) (ops.foldl exec s') := by
  induction ops generalizing s s' with
  | nil => exact h
  | cons op ops ih =>
    obtain ⟨ho, hrest⟩ := Bool.and_eq_true_iff.mp hok
    have ho := of_decide_eq_true ho
    obtain ⟨hstep, ho'⟩ := h.step hs hs' ho
    exact ih hstep (hs.step ho) (hs'.step ho') hrest

end System

end Khala.Dispatcher
