/-
What the votes on a proposal come to.

The invariant speaks of the history: each event was lawful when it happened.
A call keeps it whatever the proposals that it dispatches do, since those act on
the pallet through its entry points only, one level of nesting further down.
-/
import Khala.Bridge

namespace Khala.Bridge

open Call

variable {A P X : Type} {cfg : Config A P X} {c c' : Chain A P X} {key : Key P}
  {votes : ProposalVotes A} {st : Storage A P} {who : A}

/-! ## Votes, relayers and what is lawful -/

/-- Nobody voted twice, and who is for it voted so as a relayer. -/
structure ProposalVotes.Genuine (votes : ProposalVotes A) (key : Key P) (trace : List (Event A P)) : Prop where
  nodup : (votes.votesFor ++ votes.votesAgainst).Nodup
  voted : ∀ who ∈ votes.votesFor, .voted key who true true ∈ trace

/-- Nobody is in twice. -/
structure ProposalVotes.Proper (votes : ProposalVotes A) : Prop where
  votesFor : votes.votesFor.Nodup
  votesAgainst : votes.votesAgainst.Nodup
  disjoint : votes.votesFor.Disjoint votes.votesAgainst

theorem ProposalVotes.Genuine.proper {trace : List (Event A P)} (h : votes.Genuine key trace) : votes.Proper := by
  obtain ⟨hfor, hagainst, hdisjoint⟩ := List.nodup_append'.mp h.nodup
  exact ⟨hfor, hagainst, hdisjoint⟩

section Relayers

variable [DecidableEq A]

/-- The accounts that are relayers. -/
def Storage.relayerSet (st : Storage A P) : Finset A :=
  st.relayers.keys.toFinset.filter fun who => st.isRelayer who = true

theorem Storage.mem_relayerSet : who ∈ st.relayerSet ↔ st.isRelayer who = true := by
  unfold Storage.relayerSet
  rw [Finset.mem_filter]
  refine ⟨fun h => h.2, fun h => ⟨?_, h⟩⟩
  rw [List.mem_toFinset, ← AList.mem_keys, ← AList.lookup_isSome]
  unfold Storage.isRelayer at h
  cases hl : st.relayers.lookup who with
  | none =>
    rw [hl] at h
    cases h
  | some => rfl

def Storage.Counted (st : Storage A P) : Prop := st.relayerCount = st.relayerSet.card

/-- The recorded votes, for and against, of accounts that are not relayers any more. -/
def ProposalVotes.stale (votes : ProposalVotes A) (st : Storage A P) : ℕ :=
  (votes.votesFor ++ votes.votesAgainst).countP fun who => st.isRelayer who = false

/-- The relayers that have not voted. -/
def ProposalVotes.unvoted (votes : ProposalVotes A) (st : Storage A P) : Finset A :=
  st.relayerSet.filter fun who => votes.hasVoted who = false

/-- Every relayer has voted or not, and every vote is a relayer's or stale. -/
theorem ProposalVotes.Proper.card_unvoted (h : votes.Proper) :
    (votes.unvoted st).card + (votes.votesFor.length + votes.votesAgainst.length) =
    st.relayerSet.card + votes.stale st := by
  have hnodup : (votes.votesFor ++ votes.votesAgainst).Nodup :=
    List.nodup_append'.mpr ⟨h.votesFor, h.votesAgainst, h.disjoint⟩
  have hvoters : (st.relayerSet.filter fun who => ¬votes.hasVoted who = false).card =
      (votes.votesFor ++ votes.votesAgainst).countP fun who => st.isRelayer who := by
    rw [List.countP_eq_length_filter, ← List.toFinset_card_of_nodup (hnodup.filter _)]
    refine congrArg Finset.card (Finset.ext fun who => ?_)
    simp [Storage.mem_relayerSet, ProposalVotes.hasVoted]
    tauto
  have hsplit := Finset.card_filter_add_card_filter_not (s := st.relayerSet) fun who => votes.hasVoted who = false
  have hlength := List.length_eq_countP_add_countP (l := votes.votesFor ++ votes.votesAgainst)
      fun who => st.isRelayer who
  rw [List.length_append, ← hvoters] at hlength
  unfold unvoted stale
  simp only [Bool.not_eq_true] at hlength
  omega

end Relayers

section Trace

variable [DecidableEq A] [DecidableEq P]

/-- What must have been so for the event to happen. -/
def Event.Lawful (earlier : List (Event A P)) : Event A P → Prop
  | .voted _ _ _ relayer => relayer = true
  | .stored key votes st => votes.Genuine key earlier ∧
    (∀ v st', .stored key v st' ∈ earlier → v.isComplete = false) ∧ st.Counted ∧
    (votes.status = .rejected → st.relayerCount < votes.votesAgainst.length + st.relayerThreshold)
  | .dispatched key st now => (∀ st' now', .dispatched key st' now' ∉ earlier) ∧
    (∀ v st', .stored key v st' ∈ earlier → v.status ≠ .rejected) ∧
    ∃ votes, st.votes.lookup key = some votes ∧ votes.Genuine key earlier ∧ now < votes.expiry ∧
      st.relayerThreshold ≤ votes.votesFor.length

def Lawful : List (Event A P) → Prop
  | [] => True
  | e :: earlier => e.Lawful earlier ∧ Lawful earlier

theorem Lawful.split {trace later earlier : List (Event A P)} {e : Event A P} (h : Lawful trace)
    (ht : trace = later ++ e :: earlier) : e.Lawful earlier := by
  subst ht
  induction later with
  | nil => exact h.1
  | cons _ _ ih => exact ih h.2

structure Voting (c : Chain A P X) : Prop where
  lawful : Lawful c.trace
  counted : c.bridge.Counted
  genuine : ∀ key votes, c.bridge.votes.lookup key = some votes → votes.Genuine key c.trace
  /-- What is decided stays as it was stored. -/
  settled : ∀ key votes st, .stored key votes st ∈ c.trace → votes.isComplete = true →
    c.bridge.votes.lookup key = some votes
  approved : ∀ key st now, .dispatched key st now ∈ c.trace →
    ∃ votes, c.bridge.votes.lookup key = some votes ∧ votes.status = .approved

end Trace

/-! ## Votes -/

namespace ProposalVotes

theorem Genuine.mono {trace trace' : List (Event A P)} (h : votes.Genuine key trace) (hsub : trace ⊆ trace') :
    votes.Genuine key trace' := ⟨h.nodup, fun who hw => hsub (h.voted who hw)⟩

theorem Genuine.new (expiry : ℕ) (trace : List (Event A P)) : (new expiry : ProposalVotes A).Genuine key trace :=
  ⟨List.nodup_nil, nofun⟩

theorem Genuine.push [DecidableEq A] {trace : List (Event A P)} {inFavour : Bool} (h : votes.Genuine key trace)
    (hv : votes.hasVoted who = false) :
    (votes.push who inFavour).Genuine key (.voted key who inFavour true :: trace) := by
  have hnew : who ∉ votes.votesFor ++ votes.votesAgainst := by
    simpa [hasVoted, not_or] using hv
  have hnodup : ((who :: votes.votesFor) ++ votes.votesAgainst).Nodup := List.nodup_cons.mpr ⟨hnew, h.nodup⟩
  cases inFavour with
  | true =>
    refine ⟨(List.Perm.append_right _ (List.perm_append_singleton who votes.votesFor)).nodup_iff.mpr hnodup, ?_⟩
    intro w hw
    rcases List.mem_append.mp hw with hw | hw
    · exact List.mem_cons_of_mem _ (h.voted w hw)
    · rw [List.mem_singleton.mp hw]
      exact List.mem_cons_self
  | false =>
    refine ⟨?_, fun w hw => List.mem_cons_of_mem _ (h.voted w hw)⟩
    change (votes.votesFor ++ (votes.votesAgainst ++ [who])).Nodup
    rw [← List.append_assoc]
    exact (List.perm_append_singleton who _).nodup_iff.mpr hnodup

theorem tryToComplete_spec (hopen : votes.isComplete = false) (threshold total : ℕ) :
    (votes.tryToComplete threshold total).2 = { votes with status := (votes.tryToComplete threshold total).1 } ∧
    ((votes.tryToComplete threshold total).1 = .approved → threshold ≤ votes.votesFor.length) ∧
    ((votes.tryToComplete threshold total).1 = .rejected → total < votes.votesAgainst.length + threshold) := by
  unfold tryToComplete
  split
  · next h => exact ⟨rfl, fun _ => h, nofun⟩
  · split
    · next h => exact ⟨rfl, nofun, fun _ => h.2⟩
    · have hstatus : votes.status = .initiated := by simpa [isComplete] using hopen
      exact ⟨by rw [← hstatus], nofun, nofun⟩

end ProposalVotes

/-! ## The writes of the pallet -/

section Pallet

variable [DecidableEq A] [DecidableEq P]

namespace Voting

theorem genesis (h : Genesis c) : Voting c := by
  have hvotes : c.bridge.votes = ∅ := by rw [h.bridge]; rfl
  refine ⟨?_, ?_, fun key votes hl => ?_, fun key votes st hs => ?_, fun key st now hd => ?_⟩
  · rw [h.trace]
    trivial
  · rw [h.bridge]
    rfl
  · rw [hvotes] at hl
    cases hl
  · rw [h.trace] at hs
    cases hs
  · rw [h.trace] at hd
    cases hd

/-- What touches neither the votes nor the relayers. -/
theorem of_votes (h : Voting c) (hvotes : c'.bridge.votes = c.bridge.votes) (htrace : c'.trace = c.trace)
    (hcounted : c'.bridge.Counted) : Voting c' := by
  refine ⟨?_, hcounted, ?_, ?_, ?_⟩
  · rw [htrace]
    exact h.lawful
  · rw [hvotes, htrace]
    exact h.genuine
  · rw [hvotes, htrace]
    exact h.settled
  · rw [hvotes, htrace]
    exact h.approved

theorem voted (h : Voting c) (key : Key P) (who : A) (inFavour : Bool) :
    Voting (c.record (.voted key who inFavour true)) := by
  refine ⟨⟨rfl, h.lawful⟩, h.counted, fun k v hl => (h.genuine k v hl).mono (List.subset_cons_self _ _), ?_, ?_⟩
  · intro k v st hs
    rcases List.mem_cons.mp hs with he | hs
    · cases he
    · exact h.settled k v st hs
  · intro k st now hd
    rcases List.mem_cons.mp hd with he | hd
    · cases he
    · exact h.approved k st now hd

/-- Open votes are replaced. -/
theorem insertVotes (h : Voting c) (hgenuine : votes.Genuine key c.trace)
    (hopen : ∀ v, c.bridge.votes.lookup key = some v → v.isComplete = false)
    (hrejected : votes.status = .rejected → c.bridge.relayerCount <
    votes.votesAgainst.length + c.bridge.relayerThreshold) :
    Voting (c.insertVotes key votes) := by
  have hstored (v : ProposalVotes A) (st : Storage A P) (hs : .stored key v st ∈ c.trace) :
      v.isComplete = false := by
    by_contra hv
    exact hv (hopen v (h.settled key v st hs (by simpa using hv)))
  have hother (k : Key P) (hk : k ≠ key) : (c.insertVotes key votes).bridge.votes.lookup k =
      c.bridge.votes.lookup k :=
    AList.lookup_insert_ne hk
  have hself : (c.insertVotes key votes).bridge.votes.lookup key = some votes := AList.lookup_insert _
  refine ⟨⟨⟨hgenuine, hstored, h.counted, hrejected⟩, h.lawful⟩, h.counted,
    fun k v hl => ?_, fun k v st hs hv => ?_,
    fun k st now hd => ?_⟩
  · refine ProposalVotes.Genuine.mono ?_ (List.subset_cons_self _ _)
    by_cases hk : k = key
    · subst hk
      rw [hself] at hl
      cases hl
      exact hgenuine
    · rw [hother k hk] at hl
      exact h.genuine k v hl
  · rcases List.mem_cons.mp hs with he | hold
    · cases he
      exact hself
    · have hk : k ≠ key := by
        rintro rfl
        rw [hstored v st hold] at hv
        cases hv
      rw [hother k hk]
      exact h.settled k v st hold hv
  · rcases List.mem_cons.mp hd with he | hold
    · cases he
    · obtain ⟨v, hl, hv⟩ := h.approved k st now hold
      have hk : k ≠ key := by
        rintro rfl
        have := hopen v hl
        simp [ProposalVotes.isComplete, hv] at this
      exact ⟨v, by rw [hother k hk]; exact hl, hv⟩

/-- The call of a proposal that has just been approved is dispatched. -/
theorem dispatched (h : Voting c) (hl : c.bridge.votes.lookup key = some votes)
    (hstatus : votes.status = .approved) (hnew : ∀ st now, .dispatched key st now ∉ c.trace)
    (hexpiry : c.blockNumber < votes.expiry) (hthreshold : c.bridge.relayerThreshold ≤ votes.votesFor.length) :
    Voting (c.record (.dispatched key c.bridge c.blockNumber)) := by
  have hrejected (v : ProposalVotes A) (st : Storage A P) (hs : .stored key v st ∈ c.trace) :
      v.status ≠ .rejected := by
    intro hv
    have hcurrent := h.settled key v st hs (by simp [ProposalVotes.isComplete, hv])
    rw [hl] at hcurrent
    cases hcurrent
    rw [hstatus] at hv
    cases hv
  refine ⟨⟨⟨hnew, hrejected, votes, hl, h.genuine key votes hl, hexpiry, hthreshold⟩, h.lawful⟩, h.counted,
    fun k v hk => (h.genuine k v hk).mono (List.subset_cons_self _ _), fun k v st hs => ?_, fun k st now hd => ?_⟩
  · rcases List.mem_cons.mp hs with he | hs
    · cases he
    · exact h.settled k v st hs
  · rcases List.mem_cons.mp hd with he | hd
    · cases he
      exact ⟨votes, hl, hstatus⟩
    · exact h.approved k st now hd

end Voting

/-! ## The calls -/

variable {dispatch : P → Call (Chain A P X) Error Unit} {origin : Origin A} {nonce : DepositNonce}
  {srcId : BridgeChainId} {prop : P}

theorem put_keeps {f : Storage A P → Storage A P} (hvotes : ∀ st, (f st).votes = st.votes)
    (hcounted : ∀ st, st.Counted → (f st).Counted) : (put f : Call (Chain A P X) Error Unit).Keeps Voting :=
  fun c h => h.of_votes (hvotes c.bridge) rfl (hcounted _ h.counted)

theorem registerRelayer_keeps (v : A) : (registerRelayer v : Call (Chain A P X) Error Unit).Keeps Voting := by
  intro c h
  refine Ends.read_then ?_
  refine Ends.ensure_then (fun _ => h) fun hv => ?_
  refine h.of_votes rfl rfl ?_
  change c.bridge.relayerCount + 1 = Finset.card _
  have hnot : v ∉ c.bridge.relayerSet := by
    rw [Storage.mem_relayerSet, hv]
    simp
  rw [h.counted, ← Finset.card_insert_of_notMem hnot]
  refine congrArg Finset.card (Finset.ext fun w => ?_)
  rw [Finset.mem_insert, Storage.mem_relayerSet, Storage.mem_relayerSet]
  unfold Storage.isRelayer
  rw [StorageMap.lookup_insert_ite]
  by_cases hw : w = v
  · simp [hw]
  · simp [hw]

theorem unregisterRelayer_keeps (v : A) : (unregisterRelayer v : Call (Chain A P X) Error Unit).Keeps Voting := by
  intro c h
  refine Ends.read_then ?_
  refine Ends.ensure_then (fun _ => h) fun hv => ?_
  refine h.of_votes rfl rfl ?_
  change c.bridge.relayerCount - 1 = Finset.card _
  rw [h.counted, ← Finset.card_erase_of_mem (Storage.mem_relayerSet.mpr hv)]
  refine congrArg Finset.card (Finset.ext fun w => ?_)
  rw [Finset.mem_erase, Storage.mem_relayerSet, Storage.mem_relayerSet]
  unfold Storage.isRelayer
  rw [StorageMap.lookup_erase_ite]
  by_cases hw : w = v
  · simp [hw]
  · simp [hw]

theorem commitVote_keeps {inFavour : Bool} (h : Voting c) (hrelayer : c.bridge.isRelayer who = true) :
    (commitVote cfg who nonce srcId prop inFavour).Ends c (fun _ c' => Voting c') fun _ c' => Voting c' := by
  refine Ends.read_then ?_
  refine Ends.ensure_then (fun _ => h) fun hopen => ?_
  refine Ends.ensure_then (fun _ => h) fun _ => ?_
  refine Ends.ensure_then (fun _ => h) fun hvoted => ?_
  refine Ends.write_then ?_
  rw [hrelayer]
  have hgenuine :
      ((c.bridge.votes.lookup (srcId, nonce, prop)).getD (.new (c.blockNumber + cfg.proposalLifetime))).Genuine
      (srcId, nonce, prop) c.trace := by
    cases hl : c.bridge.votes.lookup (srcId, nonce, prop) with
    | none => exact .new _ _
    | some votes => exact h.genuine _ votes hl
  have hstatus : (((c.bridge.votes.lookup (srcId, nonce, prop)).getD
      (.new (c.blockNumber + cfg.proposalLifetime))).push who inFavour).status ≠ .rejected := by
    have hinit : ∀ votes : ProposalVotes A, votes.isComplete = false →
        (votes.push who inFavour).status = .initiated := by
      intro votes hv
      cases inFavour <;> simpa [ProposalVotes.isComplete, ProposalVotes.push] using hv
    rw [hinit _ hopen]
    nofun
  refine (h.voted (srcId, nonce, prop) who inFavour).insertVotes (hgenuine.push hvoted) (fun v hl => ?_) fun hr =>
    absurd hr hstatus
  have hl : c.bridge.votes.lookup (srcId, nonce, prop) = some v := hl
  rw [hl] at hopen
  exact hopen

theorem tryResolveProposal_keeps (hd : ∀ call, (dispatch call).Keeps Voting) :
    (tryResolveProposal dispatch nonce srcId prop).Keeps Voting := by
  intro c h
  refine Ends.read_then ?_
  refine Ends.unwrap_then (fun _ => h) fun votes hl => ?_
  refine Ends.ensure_then (fun _ => h) fun hopen => ?_
  refine Ends.ensure_then (fun _ => h) fun hexpiry => ?_
  refine Ends.write_then ?_
  obtain ⟨hvotes, happroved, hrejected⟩ :=
    ProposalVotes.tryToComplete_spec hopen c.bridge.relayerThreshold c.bridge.relayerCount
  have hgenuine := h.genuine _ votes hl
  have hstored : Voting (c.insertVotes (srcId, nonce, prop)
      (votes.tryToComplete c.bridge.relayerThreshold c.bridge.relayerCount).2) := by
    refine h.insertVotes ?_ (fun v hv => ?_) ?_
    · rw [hvotes]
      exact ⟨hgenuine.nodup, hgenuine.voted⟩
    · rw [hl] at hv
      cases hv
      exact hopen
    · rw [hvotes]
      exact hrejected
  split
  · next hstatus =>
    refine Ends.write_then (hd prop _ ?_)
    refine hstored.dispatched (AList.lookup_insert _) (by rw [hvotes]; exact hstatus) ?_ ?_ ?_
    · intro st now hmem
      rcases List.mem_cons.mp hmem with he | hmem
      · cases he
      · obtain ⟨v, hv, hv'⟩ := h.approved _ st now hmem
        rw [hl] at hv
        cases hv
        simp [ProposalVotes.isComplete, hv'] at hopen
    · rw [hvotes]
      change c.blockNumber < votes.expiry
      simpa [ProposalVotes.isExpired] using hexpiry
    · rw [hvotes]
      exact happroved hstatus
  · exact hstored
  · exact hstored

theorem ensureMayVote_ends (h : Voting c) : (ensureMayVote origin srcId : Call (Chain A P X) Error A).Ends c
    (fun who c' => c' = c ∧ c.bridge.isRelayer who = true) fun _ c' => Voting c' := by
  cases origin with
  | signed who =>
    refine Ends.read_then ?_
    refine Ends.ensure_then (fun _ => h) fun hrelayer => ?_
    refine Ends.ensure_then (fun _ => h) fun _ => ?_
    exact ⟨rfl, hrelayer⟩
  | committee => exact h
  | other => exact h

theorem ensureCommittee_keeps : (ensureCommittee origin : Call (Chain A P X) Error Unit).Keeps Voting := by
  cases origin with
  | committee => exact Keeps.pure ()
  | signed => exact Keeps.throw _
  | other => exact Keeps.throw _

/-- A vote and what it resolves. -/
theorem vote_keeps {inFavour : Bool} (hd : ∀ call, (dispatch call).Keeps Voting) :
    (ensureMayVote origin srcId >>= fun who => commitVote cfg who nonce srcId prop inFavour >>= fun _ =>
      tryResolveProposal dispatch nonce srcId prop).Keeps Voting := by
  intro c h
  refine Ends.bind (ensureMayVote_ends h) ?_
  rintro who _ ⟨rfl, hrelayer⟩
  exact Ends.bind (commitVote_keeps h hrelayer) fun _ c' h' => tryResolveProposal_keeps hd c' h'

theorem deposit_keeps (destId : BridgeChainId) (event : DepositNonce → BridgeEvent) :
    (onStorage (deposit destId event) : Call (Chain A P X) Error Unit).Keeps Voting := by
  intro c h
  have hdeposit : (deposit destId event : Call (Storage A P) Error Unit).Ends c.bridge
      (fun _ st => st.votes = c.bridge.votes ∧ st.Counted) fun _ st => st.votes = c.bridge.votes ∧ st.Counted := by
    unfold Ends
    rw [deposit_eq]
    split
    · next heq =>
      split at heq
      · cases heq
        exact ⟨rfl, h.counted⟩
      · cases heq
    · next heq =>
      split at heq
      · cases heq
      · cases heq
        exact ⟨rfl, h.counted⟩
  refine (Ends.zoom hdeposit).mono ?_ ?_
  · rintro _ _ ⟨st, ⟨hvotes, hcounted⟩, rfl⟩
    exact h.of_votes hvotes rfl hcounted
  · rintro _ _ ⟨st, ⟨hvotes, hcounted⟩, rfl⟩
    exact h.of_votes hvotes rfl hcounted

theorem enter_keeps (hd : ∀ call, (dispatch call).Keeps Voting) (entry : Entry A P) :
    (enter cfg dispatch origin entry).Keeps Voting := by
  cases entry with
  | setThreshold threshold =>
    refine ensureCommittee_keeps.bind fun _ => ?_
    exact (Keeps.ensure _ _).bind fun _ => put_keeps (fun _ => rfl) fun _ h => h
  | whitelistChain id =>
    refine ensureCommittee_keeps.bind fun _ => ?_
    refine (Keeps.ensure _ _).bind fun _ => ?_
    intro c h
    refine Ends.read_then ?_
    exact Ends.ensure_then (fun _ => h) fun _ => h.of_votes rfl rfl h.counted
  | addRelayer v => exact ensureCommittee_keeps.bind fun _ => registerRelayer_keeps v
  | removeRelayer v => exact ensureCommittee_keeps.bind fun _ => unregisterRelayer_keeps v
  | acknowledgeProposal nonce srcId call => exact vote_keeps hd
  | rejectProposal nonce srcId call => exact vote_keeps hd
  | evalVoteState nonce srcId prop =>
    cases origin with
    | signed => exact tryResolveProposal_keeps hd
    | committee => exact Keeps.throw _
    | other => exact Keeps.throw _
  | transferFungible => exact deposit_keeps _ _
  | transferNonfungible => exact deposit_keeps _ _
  | transferGeneric => exact deposit_keeps _ _

/-- Whatever a dispatched call does. -/
theorem Script.run_keeps (hd : ∀ call, (dispatch call).Keeps Voting) (script : Script A P X) :
    (script.run cfg dispatch).Keeps Voting := by
  induction script with
  | finish result => exact Keeps.lift result
  | other rest next ih => exact fun c h => ih _ (h.of_votes rfl rfl h.counted)
  | call origin entry next ih => exact fun c h => ih _ _ _ ((enter_keeps hd entry).state h)

/-- The induction is on the depth to which dispatches nest. -/
theorem dispatch_keeps (depth : ℕ) (call : P) : (Bridge.dispatch cfg depth call).Keeps Voting := by
  induction depth generalizing call with
  | zero => exact Keeps.throw _
  | succ depth ih => exact fun c h => Script.run_keeps ih (cfg.behaviour call c) c h

theorem Reachable.voting (h : Reachable cfg c) : Voting c := by
  refine h.invariant Voting (fun _ => .genesis) ?_
  rintro c op _ hc _ rfl
  cases op with
  | call origin entry => exact (enter_keeps (dispatch_keeps cfg.depth) entry).state hc
  | nextBlock => exact hc.of_votes rfl rfl hc.counted
  | other rest => exact hc.of_votes rfl rfl hc.counted

/-- **A proposal runs at most once and only with enough votes.** When its call is
dispatched, it was not before, the proposal was never rejected, it is not
expired, and as many different accounts as the threshold asks for are for it,
each of which voted so as a relayer. Votes are proper whenever they are stored,
and once they are complete they are not stored again: they stay as they are. -/
theorem proposal_runs_once (h : Reachable cfg c) (key : Key P) :
    (∀ later st now earlier, c.trace = later ++ .dispatched key st now :: earlier →
      (∀ st' now', .dispatched key st' now' ∉ earlier) ∧
      (∀ votes st', .stored key votes st' ∈ earlier → votes.status ≠ .rejected) ∧
      ∃ votes, st.votes.lookup key = some votes ∧ now < votes.expiry ∧ votes.votesFor.Nodup ∧
        st.relayerThreshold ≤ votes.votesFor.length ∧ ∀ who ∈ votes.votesFor, .voted key who true true ∈ earlier) ∧
    (∀ later votes st earlier, c.trace = later ++ .stored key votes st :: earlier →
      votes.Proper ∧ ∀ v st', .stored key v st' ∈ earlier → v.isComplete = false) ∧
    (∀ votes, c.bridge.votes.lookup key = some votes → votes.Proper) ∧
    ∀ votes st, .stored key votes st ∈ c.trace → votes.isComplete = true →
      c.bridge.votes.lookup key = some votes := by
  have hv := h.voting
  refine ⟨fun later st now earlier ht => ?_, fun later votes st earlier ht => ?_,
    fun votes hl => ?_, hv.settled key⟩
  · obtain ⟨honce, hrejected, votes, hl, hgenuine, hexpiry, hthreshold⟩ := hv.lawful.split ht
    exact ⟨honce, hrejected, votes, hl, hexpiry, hgenuine.proper.votesFor, hthreshold, hgenuine.voted⟩
  · obtain ⟨hgenuine, hopen, -⟩ := hv.lawful.split ht
    exact ⟨hgenuine.proper, hopen⟩
  · exact (hv.genuine key votes hl).proper

/-- **A rejected proposal is out of reach, but for stale votes.** When a proposal
becomes rejected, the relayers that have not voted and the votes for it are
fewer than the threshold and the stale votes. -/
theorem rejected_out_of_reach (h : Reachable cfg c) (hs : .stored key votes st ∈ c.trace)
    (hr : votes.status = .rejected) :
    (votes.unvoted st).card + votes.votesFor.length < st.relayerThreshold + votes.stale st := by
  obtain ⟨earlier, later, ht⟩ := List.append_of_mem hs
  obtain ⟨hgenuine, -, hcounted, hrejected⟩ := h.voting.lawful.split ht
  have hcount : (votes.unvoted st).card + (votes.votesFor.length + votes.votesAgainst.length) = _ :=
    hgenuine.proper.card_unvoted
  have hlt := hrejected hr
  rw [hcounted] at hlt
  omega

end Pallet

/-! ## Two runs with three relayers -/

namespace Demo

/-- A dispatched call evaluates its own proposal again, and fails. -/
def config : Config ℕ ℕ Unit where
  bridgeChainId := 5
  proposalLifetime := 50
  behaviour call _ := .call (.signed 9) (.evalVoteState 1 0 call) fun _ _ => .finish (.error (.other 1))
  depth := 2

def start : Chain ℕ ℕ Unit := ⟨.default, 1, (), []⟩

def setUp : List (Op ℕ ℕ Unit) :=
  [.call .committee (.setThreshold 2), .call .committee (.whitelistChain 0), .call .committee (.addRelayer 1),
    .call .committee (.addRelayer 2), .call .committee (.addRelayer 3)]

def run (ops : List (Op ℕ ℕ Unit)) : Chain ℕ ℕ Unit := (setUp ++ ops).foldl (exec config) start

theorem run_reachable (ops : List (Op ℕ ℕ Unit)) : Reachable config (run ops) :=
  ReachWhere.foldl (.init ⟨rfl, rfl⟩) (by
    generalize setUp ++ ops = os
    generalize start = s
    induction os generalizing s with
    | nil => rfl
    | cons _ _ ih => exact ih _)

/-- The second vote approves the proposal; its call fails, and is evaluated once more. -/
def approved : Chain ℕ ℕ Unit :=
  run [.call (.signed 1) (.acknowledgeProposal 1 0 7), .nextBlock, .call (.signed 2) (.acknowledgeProposal 1 0 7),
    .call (.signed 9) (.evalVoteState 1 0 7)]

/-- The first relayer votes against the proposal and is removed. -/
def rejected : Chain ℕ ℕ Unit :=
  run [.call (.signed 1) (.rejectProposal 1 0 7), .call .committee (.removeRelayer 1),
    .call (.signed 9) (.evalVoteState 1 0 7)]

end Demo

theorem proposal_runs_once_demo : Reachable Demo.config Demo.approved ∧
    ∃ st now earlier, Demo.approved.trace = .dispatched (0, 1, 7) st now :: earlier ∧
      (∀ st' now', .dispatched (0, 1, 7) st' now' ∉ earlier) ∧
      ∃ votes, st.votes.lookup (0, 1, 7) = some votes ∧ votes.votesFor.Nodup ∧ 2 ≤ votes.votesFor.length := by
  obtain ⟨st, now, earlier, ht, hthreshold⟩ : ∃ st now earlier,
      Demo.approved.trace = .dispatched (0, 1, 7) st now :: earlier ∧ st.relayerThreshold = 2 :=
    ⟨_, _, _, rfl, rfl⟩
  obtain ⟨hdispatched, -⟩ := proposal_runs_once
      (Demo.run_reachable _ : Reachable Demo.config Demo.approved) (0, 1, 7)
  obtain ⟨honce, -, votes, hl, -, hnodup, hvotes, -⟩ := hdispatched [] st now earlier ht
  rw [hthreshold] at hvotes
  exact ⟨Demo.run_reachable _, st, now, earlier, ht, honce, votes, hl, hnodup, hvotes⟩

/-- Two relayers are left, who could pass the proposal that is rejected. -/
theorem rejected_not_out_of_reach : ∃ c : Chain ℕ ℕ Unit, Reachable Demo.config c ∧
    ∃ key votes st, .stored key votes st ∈ c.trace ∧ votes.status = .rejected ∧
      st.relayerThreshold ≤ (votes.unvoted st).card + votes.votesFor.length := by
  obtain ⟨votes, st, earlier, ht, hr, hle⟩ : ∃ votes st earlier,
      Demo.rejected.trace = .stored (0, 1, 7) votes st :: earlier ∧
      votes.status = .rejected ∧ st.relayerThreshold ≤ (votes.unvoted st).card + votes.votesFor.length :=
    ⟨_, _, _, rfl, rfl, by decide +kernel⟩
  refine ⟨Demo.rejected, Demo.run_reachable _, (0, 1, 7), votes, st, ?_, hr, hle⟩
  rw [ht]
  exact List.mem_cons_self

theorem rejected_out_of_reach_demo : ∃ votes st, .stored (0, 1, 7) votes st ∈ Demo.rejected.trace ∧
    (votes.unvoted st).card + votes.votesFor.length < st.relayerThreshold + votes.stale st := by
  obtain ⟨votes, st, earlier, ht, hr⟩ : ∃ votes st earlier,
      Demo.rejected.trace = .stored (0, 1, 7) votes st :: earlier ∧ votes.status = .rejected := ⟨_, _, _, rfl, rfl⟩
  have hs : .stored (0, 1, 7) votes st ∈ Demo.rejected.trace := by
    rw [ht]
    exact List.mem_cons_self
  exact ⟨votes, st, hs, rejected_out_of_reach (Demo.run_reachable _ : Reachable Demo.config Demo.rejected) hs hr⟩

end Khala.Bridge
