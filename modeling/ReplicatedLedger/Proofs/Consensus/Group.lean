import Mathlib.Data.List.Perm.Subperm
import ReplicatedLedger.Proofs.Consensus.Handling
import ReplicatedLedger.Proofs.Play
import ReplicatedLedger.Proofs.World

/-!
The logs of a shard's replica group, each called by its replica and joined by an unreliable network.
-/

namespace ReplicatedLedger

namespace ReplicatedLog

/-- The calls that a replica makes on its log. -/
inductive Call where
  | propose (c : Command)
  | deliver (sender : ReplicaId) (m : Message)
  | expire (t : Timer)
  | drainApplicable
  | requestCatchUp
  | takeCompletions
  | repartition (partition : Partition)

def Call.message? : Call → Option (ReplicaId × Message)
  | .deliver sender m => some (sender, m)
  | .propose _ | .expire _ | .drainApplicable | .requestCatchUp | .takeCompletions
  | .repartition _ => none

/-- What a call returns, with the log as it is then. -/
structure Reply where
  log : ReplicatedLog
  actions : List Action := []
  proposal? : Option ProposalId := none
  ready : List LogEntry := []
  completions : List Completion := []

def answer (l : ReplicatedLog) : Call → Except Fault Reply
  | .propose c =>
    (fun p => { log := p.1, actions := p.2.2, proposal? := some p.2.1 }) <$> l.propose c
  | .deliver sender m =>
    (fun p => { log := p.1, actions := p.2 }) <$> l.handle (.message sender m)
  | .expire t => (fun p => { log := p.1, actions := p.2 }) <$> l.handle (.timer t)
  | .drainApplicable => (fun p => { log := p.1, ready := p.2 }) <$> l.drainApplicable
  | .requestCatchUp => (fun actions => { log := l, actions := actions }) <$> l.requestCatchUp
  | .takeCompletions => .ok { log := l.takeCompletions.1, completions := l.takeCompletions.2 }
  | .repartition partition => .ok { log := { l with partition := partition } }

variable {heard : ReplicaId → Message → Prop} {wanted : Command → Prop} {l : ReplicatedLog}
  {call : Call} {reply : Reply}

theorem answer_moves (hl : l.Coherent) (hs : l.Settled)
    (told : ∀ sender m, call = .deliver sender m → heard sender m)
    (due : ∀ c, call = .propose c → wanted c)
    (h : l.answer call = .ok reply) :
    Moves heard wanted l reply.actions reply.ready reply.log ∧ reply.log.Settled := by
  cases call with
  | propose c =>
      obtain ⟨⟨log, id, actions⟩, hpropose, rfl⟩ := map_eq_ok_iff.1 h
      exact propose_moves hl hs (due c rfl) hpropose
  | deliver sender m =>
      obtain ⟨⟨log, actions⟩, hhandle, rfl⟩ := map_eq_ok_iff.1 h
      refine handle_moves hl hs ?_ hhandle
      intro sender' m' hm
      cases hm
      exact told sender m rfl
  | expire t =>
      obtain ⟨⟨log, actions⟩, hhandle, rfl⟩ := map_eq_ok_iff.1 h
      refine handle_moves hl hs ?_ hhandle
      intro sender m hm
      cases hm
  | drainApplicable =>
      obtain ⟨⟨log, ready⟩, hdrain, rfl⟩ := map_eq_ok_iff.1 h
      exact drainApplicable_moves hs hdrain
  | requestCatchUp =>
      obtain ⟨actions, hrequest, rfl⟩ := map_eq_ok_iff.1 h
      exact ⟨requestCatchUp_moves hrequest, hs⟩
  | takeCompletions =>
      cases h
      exact ⟨Move.handOver.single, hs⟩
  | repartition partition =>
      cases h
      exact ⟨(Move.repartition partition).single, hs⟩

end ReplicatedLog

/-- A shard and the replicas that serve it. -/
structure Group where
  routing : RoutingTable
  shard : ShardId
  policy : ReplicaId → ConsensusPolicy

namespace Group

variable (g : Group)

def members : List ReplicaId := g.routing.group g.shard

def topology (r : ReplicaId) : Topology := ⟨r, g.shard, g.routing⟩

/-- The size of a majority of the members. -/
def quorum : Nat := g.members.length / 2 + 1

/-- The group before its first call. -/
def start : World ReplicatedLog where
  machine r := { topology := g.topology r, policy := g.policy r }

/-- A call on the log of one replica, with what it returned. -/
structure Turn where
  replica : ReplicaId
  call : ReplicatedLog.Call
  reply : ReplicatedLog.Reply

/-- A turn of a member.  It is handed no message that was not sent to it. -/
structure Takes (w : World ReplicatedLog) (t : Turn) : Prop where
  member : t.replica ∈ g.members
  told : ∀ sender m, t.call = .deliver sender m → w.Heard t.replica sender m
  answered : (w.machine t.replica).answer t.call = .ok t.reply

/-- The turns that lead from one moment of the group to another, in any order. -/
inductive Run (w : World ReplicatedLog) : List Turn → World ReplicatedLog → Prop
  | rest : Run w [] w
  | turn {turns : List Turn} {t : Turn} {w' : World ReplicatedLog} (earlier : Run w turns w')
      (taken : g.Takes w' t) :
      Run w (turns ++ [t]) (w'.update t.replica t.reply.log t.reply.actions)

variable {g} in
/-- A run can be cut at any of its turns. -/
theorem Run.interrupt {w w' : World ReplicatedLog} {turns earlier later : List Turn} {t : Turn}
    (hrun : g.Run w turns w') (hturns : turns = earlier ++ t :: later) :
    ∃ w₀, g.Run w earlier w₀ ∧ g.Takes w₀ t ∧
      g.Run (w₀.update t.replica t.reply.log t.reply.actions) later w' := by
  induction hrun generalizing later with
  | rest => simp at hturns
  | @turn turns t' w' before taken ih =>
      rcases List.eq_nil_or_concat later with rfl | ⟨later, last, rfl⟩
      · obtain ⟨rfl, hlast⟩ := List.append_inj' hturns rfl
        cases hlast
        exact ⟨w', before, taken, .rest⟩
      · rw [List.concat_eq_append] at hturns ⊢
        rw [← List.cons_append, ← List.append_assoc] at hturns
        obtain ⟨rfl, hlast⟩ := List.append_inj' hturns rfl
        cases hlast
        obtain ⟨w₀, hearlier, htaken, hlater⟩ := ih rfl
        exact ⟨w₀, hearlier, htaken, .turn hlater taken⟩

variable {g} in
theorem Run.append {w w' w'' : World ReplicatedLog} {turns more : List Turn}
    (hrun : g.Run w turns w') (hmore : g.Run w' more w'') : g.Run w (turns ++ more) w'' := by
  induction hmore with
  | rest =>
      rw [List.append_nil]
      exact hrun
  | turn _ taken ih =>
      rw [← List.append_assoc]
      exact .turn ih taken

/-! ### Calls carried out -/

/-- What comes of a call, if it can be a turn of a member. -/
def turn? (w : World ReplicatedLog) (call : ReplicaId × ReplicatedLog.Call) :
    Option (Turn × World ReplicatedLog) :=
  if call.1 ∈ g.members ∧ ∀ p ∈ call.2.message?, w.Heard call.1 p.1 p.2 then
    match (w.machine call.1).answer call.2 with
    | .ok reply => some (⟨call.1, call.2, reply⟩, w.update call.1 reply.log reply.actions)
    | .error _ => none
  else none

def callAll (w : World ReplicatedLog) (calls : List (ReplicaId × ReplicatedLog.Call)) :
    List Turn × World ReplicatedLog :=
  play g.turn? w calls

variable {g} in
theorem turn?_eq_some_iff {w w' : World ReplicatedLog} {call : ReplicaId × ReplicatedLog.Call}
    {t : Turn} : g.turn? w call = some (t, w') ↔
      g.Takes w t ∧ call = (t.replica, t.call) ∧
        w' = w.update t.replica t.reply.log t.reply.actions := by
  obtain ⟨r, call⟩ := call
  have hsent : (∀ p ∈ call.message?, w.Heard r p.1 p.2) ↔
      ∀ sender m, call = .deliver sender m → w.Heard r sender m := by
    cases call <;> simp [ReplicatedLog.Call.message?]
  unfold turn?
  constructor
  · intro h
    split at h
    · next hmay =>
      split at h
      · next reply hanswer =>
        cases h
        exact ⟨⟨hmay.1, hsent.1 hmay.2, hanswer⟩, rfl, rfl⟩
      · cases h
    · cases h
  · rintro ⟨taken, heq, rfl⟩
    cases heq
    rw [if_pos ⟨taken.member, hsent.2 taken.told⟩, taken.answered]

theorem run_callAll (w : World ReplicatedLog) (calls : List (ReplicaId × ReplicatedLog.Call)) :
    g.Run w (g.callAll w calls).1 (g.callAll w calls).2 := by
  refine play_induction .rest (fun done w₁ call t w₂ earlier hturn => ?_) calls
  obtain ⟨taken, _, rfl⟩ := turn?_eq_some_iff.1 hturn
  exact earlier.turn taken

/-- The runs of a group are those that can be carried out. -/
theorem run_iff {w w' : World ReplicatedLog} {turns : List Turn} :
    g.Run w turns w' ↔ ∃ calls, g.callAll w calls = (turns, w') := by
  constructor
  · intro h
    induction h with
    | rest => exact ⟨[], rfl⟩
    | turn _ taken ih => exact exists_play_concat ih (turn?_eq_some_iff.2 ⟨taken, rfl, rfl⟩)
  · rintro ⟨calls, hplay⟩
    have hrun := g.run_callAll w calls
    rw [hplay] at hrun
    exact hrun

/-! ### Majorities -/

/-- Whether a majority of the members has a property. -/
def Majority (P : ReplicaId → Prop) : Prop :=
  ∃ voters : List ReplicaId, voters.Nodup ∧ (∀ r ∈ voters, r ∈ g.members ∧ P r) ∧
    g.quorum ≤ voters.length

variable {g} {P P' : ReplicaId → Prop}

theorem Majority.imp (h : g.Majority P) (himp : ∀ r ∈ g.members, P r → P' r) : g.Majority P' := by
  obtain ⟨voters, hnodup, hall, hsize⟩ := h
  refine ⟨voters, hnodup, fun r hr => ?_, hsize⟩
  obtain ⟨hmember, hp⟩ := hall r hr
  exact ⟨hmember, himp r hmember hp⟩

/-- Any two majorities have a member in common. -/
theorem Majority.meet (h : g.Majority P) (h' : g.Majority P') : ∃ r ∈ g.members, P r ∧ P' r := by
  obtain ⟨voters, hnodup, hall, hsize⟩ := h
  obtain ⟨voters', hnodup', hall', hsize'⟩ := h'
  -- two disjoint majorities would be more voters than there are members
  by_contra hnone
  have hdisjoint : voters.Disjoint voters' := by
    intro r hr hr'
    exact hnone ⟨r, (hall r hr).1, (hall r hr).2, (hall' r hr').2⟩
  have hsub : voters ++ voters' ⊆ g.members := by
    intro r hr
    rcases List.mem_append.1 hr with hr | hr
    · exact (hall r hr).1
    · exact (hall' r hr).1
  have hle := ((hnodup.append hnodup' hdisjoint).subperm hsub).length_le
  rw [List.length_append] at hle
  unfold quorum at hsize hsize'
  omega

/-- A table with an entry for each of enough members shows a majority. -/
theorem majority_of_keys {ν : Type} {m : SortedMap ReplicaId ν} (hsize : g.quorum ≤ m.size)
    (h : ∀ r v, m.get? r = some v → r ∈ g.members ∧ P r) : g.Majority P := by
  refine ⟨m.keys, m.keys_nodup, fun r hr => ?_, ?_⟩
  · obtain ⟨v, hv⟩ := SortedMap.mem_keys_iff.1 hr
    exact h r v hv
  · rw [m.length_keys]
    exact hsize

end Group

end ReplicatedLedger
