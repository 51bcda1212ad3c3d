import ReplicatedLedger.Proofs.Consensus.SafetySteps

/-!
Agreement: whatever the network does and in whatever order the replicas are called, the members of a
group know the same command as chosen for a slot, and a majority of them voted for it.
-/

namespace ReplicatedLedger

namespace Group

open ReplicatedLog (Moves)

/-- What holds of a group whenever none of its members is in the middle of a step. -/
structure Steady (g : Group) (w : World ReplicatedLog) : Prop where
  sound : g.Sound w
  coherent : ∀ r, (w.machine r).Coherent
  settled : ∀ r, (w.machine r).Settled

variable {g : Group} {w w' : World ReplicatedLog} {r r' : ReplicaId} {l' : ReplicatedLog}
  {actions : List Action} {ready : List LogEntry} {turns : List Turn} {t : Turn} {s : Slot}
  {e e' : LogEntry} {wanted : Command → Prop}

theorem steady_start (g : Group) : g.Steady g.start where
  sound := g.sound_start
  coherent _ := ReplicatedLog.coherent_fresh _ _
  settled _ := ReplicatedLog.settled_of_idle rfl

namespace Steady

theorem step (h : g.Steady w) (hr : r ∈ g.members)
    (hmoves : Moves (w.Heard r) wanted (w.machine r) actions ready l') (hs : l'.Settled) :
    g.Steady (w.update r l' actions) where
  sound := h.sound.moves hr (fun _ _ hm => hm) hmoves
  coherent := World.forall_machine_update (P := fun _ (l : ReplicatedLog) => l.Coherent)
    h.coherent ((h.coherent r).moves hmoves)
  settled := World.forall_machine_update (P := fun _ (l : ReplicatedLog) => l.Settled)
    h.settled hs

theorem agree (h : g.Steady w) (he : (w.machine r).chosen.get? s = some e)
    (he' : (w.machine r').chosen.get? s = some e') : e.command = e'.command := by
  obtain ⟨rfl, helected⟩ := h.sound.chosen r s e he
  obtain ⟨hslot, helected'⟩ := h.sound.chosen r' e.slot e' he'
  have helected' : g.Elected w ⟨e.slot, e'.ballot, e'.command⟩ := by
    rw [← hslot]
    exact helected'
  exact h.sound.agree helected helected'

end Steady

theorem Takes.moves (h : g.Steady w) (ht : g.Takes w t) :
    Moves (w.Heard t.replica) (fun c => t.call = .propose c) (w.machine t.replica) t.reply.actions
        t.reply.ready t.reply.log ∧
      t.reply.log.Settled :=
  ReplicatedLog.answer_moves (h.coherent _) (h.settled _) ht.told (fun _ hc => hc) ht.answered

namespace Run

theorem steady (h : g.Steady w) (hrun : g.Run w turns w') : g.Steady w' := by
  induction hrun with
  | rest => exact h
  | turn _ taken ih =>
      obtain ⟨hmoves, hsettled⟩ := taken.moves ih
      exact ih.step taken.member hmoves hsettled

theorem grows (h : g.Steady w) (hrun : g.Run w turns w') (q : ReplicaId) :
    (w.machine q).Grows (w'.machine q) := by
  induction hrun with
  | rest => exact .refl _
  | @turn turns t w' earlier taken ih =>
      obtain ⟨hmoves, _⟩ := taken.moves (earlier.steady h)
      exact ih.trans (grows_update hmoves.grows q)

end Run

/-- Two members, or one member at two moments, that know a slot as chosen know the same command
there, and at least a majority of the members accepted each chosen entry under its ballot. -/
theorem chosen_agree {before after : List Turn} (h : g.Run g.start before w)
    (h' : g.Run w after w') (s : Slot) (e : LogEntry)
    (he : (w.machine r).chosenAt? s = some e) :
    (∀ r' e', (w'.machine r').chosenAt? s = some e' → e.command = e'.command) ∧
      ∃ voters : List ReplicaId, voters.Nodup ∧
        (w.machine r).topology.quorum ≤ voters.length ∧
        ∀ v ∈ voters, v ∈ g.members ∧
          ⟨s, e.ballot, e.command⟩ ∈ (w.machine v).acceptor.cast := by
  have hsteady : g.Steady w := h.steady g.steady_start
  have hsteady' : g.Steady w' := h'.steady hsteady
  obtain ⟨rfl, voters, hnodup, hall, hsize⟩ := hsteady.sound.chosen r s e he
  refine ⟨fun r' e' he' => ?_, voters, hnodup, ?_, hall⟩
  · exact hsteady'.agree ((h'.grows hsteady r).chosen e.slot e he) he'
  · rw [hsteady.sound.placed r]
    exact hsize

/-- A shard of two accounts that a single replica serves. -/
def single (r : ReplicaId) : Group where
  routing := ⟨[⟨⟨0⟩, ⟨1⟩, ⟨2⟩⟩], SortedMap.ofList [(⟨0⟩, [r])]⟩
  shard := ⟨0⟩
  policy _ := {}

/-- A shard that two replicas serve. -/
def pair : Group where
  routing := ⟨[⟨⟨0⟩, ⟨1⟩, ⟨2⟩⟩], SortedMap.ofList [(⟨0⟩, [⟨1⟩, ⟨2⟩])]⟩
  shard := ⟨0⟩
  policy _ := {}

/-! ### Two replicas -/

/-- The messages by which a replica has a command chosen with the vote of another, which tells of
the command that it accepted before. -/
def balloting (r voter : ReplicaId) (b : Ballot) (s : Slot) (known : Option (Ballot × Command))
    (c : Command) : List Envelope :=
  [⟨r, voter, .prepare b s⟩, ⟨voter, r, .promise b s known⟩, ⟨r, voter, .accept b s c⟩,
    ⟨voter, r, .accepted b s⟩]

/-- The arrival of a message, as a call on the log of its receiver. -/
def arrival (m : Envelope) : ReplicaId × ReplicatedLog.Call :=
  (m.receiver, .deliver m.sender m.message)

/-- The first replica has a command chosen. -/
def ordering : List (ReplicaId × ReplicatedLog.Call) :=
  (⟨1⟩, .propose (.commit ⟨7⟩)) ::
    (balloting ⟨1⟩ ⟨2⟩ ⟨1, ⟨1⟩⟩ .first none (.commit ⟨7⟩)).map arrival

/-- The second one is told of it, and has a command of its own chosen. -/
def following : List (ReplicaId × ReplicatedLog.Call) :=
  (⟨2⟩, .deliver ⟨1⟩ (.chosen ⟨.first, ⟨1, ⟨1⟩⟩, .commit ⟨7⟩⟩)) :: (⟨2⟩, .propose (.abort ⟨7⟩)) ::
    (balloting ⟨2⟩ ⟨1⟩ ⟨2, ⟨2⟩⟩ ⟨1⟩ none (.abort ⟨7⟩)).map arrival

/-- The replicas when one of them knows a command as chosen. -/
def ordered : World ReplicatedLog := (pair.callAll pair.start ordering).2

/-- The replicas when the other one knows that command and the next. -/
def followed : World ReplicatedLog := (pair.callAll ordered following).2

/-- A replica makes two proposals, and has the first of them chosen. -/
def queueing : List (ReplicaId × ReplicatedLog.Call) :=
  (⟨1⟩, .propose (.commit ⟨7⟩)) :: (⟨1⟩, .propose (.abort ⟨7⟩)) ::
    (balloting ⟨1⟩ ⟨2⟩ ⟨1, ⟨1⟩⟩ .first none (.commit ⟨7⟩)).map arrival

theorem chosenAt?_ordered :
    (ordered.machine ⟨1⟩).chosenAt? .first = some ⟨.first, ⟨1, ⟨1⟩⟩, .commit ⟨7⟩⟩ ∧
      (ordered.machine ⟨2⟩).chosenAt? .first = none := by
  decide +kernel

theorem chosenAt?_followed :
    (followed.machine ⟨2⟩).chosenAt? .first = some ⟨.first, ⟨1, ⟨1⟩⟩, .commit ⟨7⟩⟩ ∧
      (followed.machine ⟨2⟩).chosenAt? ⟨1⟩ = some ⟨⟨1⟩, ⟨2, ⟨2⟩⟩, .abort ⟨7⟩⟩ := by
  decide +kernel

theorem chosen_agree_pair : ∃ before after w w' e e',
    pair.Run pair.start before w ∧ pair.Run w after w' ∧
      (w.machine ⟨1⟩).chosenAt? .first = some e ∧ (w.machine ⟨2⟩).chosenAt? .first = none ∧
      (w'.machine ⟨2⟩).chosenAt? .first = some e' ∧ e.command = e'.command ∧
      ∃ voters : List ReplicaId, voters.Nodup ∧
        (w.machine ⟨1⟩).topology.quorum ≤ voters.length ∧
        ∀ v ∈ voters, v ∈ pair.members ∧
          ⟨.first, e.ballot, e.command⟩ ∈ (w.machine v).acceptor.cast := by
  have hrun : pair.Run pair.start _ ordered := pair.run_callAll _ ordering
  have hrun' : pair.Run ordered _ followed := pair.run_callAll _ following
  obtain ⟨he, hnone⟩ := chosenAt?_ordered
  obtain ⟨he', _⟩ := chosenAt?_followed
  obtain ⟨hsame, hvoters⟩ := chosen_agree hrun hrun' .first _ he
  exact ⟨_, _, _, _, _, _, hrun, hrun', he, hnone, he', hsame ⟨2⟩ _ he', hvoters⟩

end Group

end ReplicatedLedger
