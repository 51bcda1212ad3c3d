import ReplicatedLedger.Consensus.ReplicatedLog.Delivery
import ReplicatedLedger.Proofs.Consensus.ChosenEntries

/-!
The moves of which every step of a log is made up.  A step is a chain of them, on the way of which
the log says things about the state that it is in.
-/

namespace ReplicatedLedger

/-- The chosen entries that a message tells of. -/
def Message.entries : Message → List LogEntry
  | .chosen e => [e]
  | .catchUpResponse batch => batch
  | _ => []

namespace ReplicatedLog

/-! ### What a log says -/

/-- Whether the log is collecting votes for a value. -/
def Asks (l : ReplicatedLog) (s : Slot) (b : Ballot) (c : Command) : Prop :=
  ∃ p votes, l.active = some p ∧ p.slot = s ∧ p.ballot = b ∧ p.phase = .accepting c votes

/-- Whether the log has collected a majority of votes for an entry. -/
def Wins (l : ReplicatedLog) (e : LogEntry) : Prop :=
  ∃ p votes, l.active = some p ∧ p.slot = e.slot ∧ p.ballot = e.ballot ∧
    p.phase = .accepting e.command votes ∧ l.topology.quorum ≤ votes.size

/-- Whether a message agrees with the state of its sender.  Requests commit it to nothing. -/
def MaySay (l : ReplicatedLog) : Message → Prop
  | .prepare .. | .catchUpRequest _ => True
  | .promise b s accepted =>
    l.chosen.get? s = none ∧ b ≤ l.acceptor.promised s ∧ l.acceptor.accepted s = accepted
  | .accept b s c => l.Asks s b c
  | .accepted b s => ∃ c, ⟨s, b, c⟩ ∈ l.acceptor.cast
  | .nack b _ promised => b < promised
  | .chosen e => l.chosen.get? e.slot = some e
  | .catchUpResponse batch => ∀ e ∈ batch, l.chosen.get? e.slot = some e

section Moves

-- the messages that have been sent to the log, by sender, and the commands asked of it
variable (heard : ReplicaId → Message → Prop) (wanted : Command → Prop)

/-- A log is told what it has heard, and what it could say itself. -/
def Told (l : ReplicatedLog) (sender : ReplicaId) (m : Message) : Prop :=
  heard sender m ∨ sender = l.replica ∧ l.MaySay m

/-- A move, with the entries that it hands out. -/
inductive Move (l : ReplicatedLog) : List LogEntry → ReplicatedLog → Prop
  | observe (b : Ballot) : Move l [] (l.observe b)
  | promise {s : Slot} {b : Ballot} {a : Acceptor} {accepted : Option (Ballot × Command)}
      (opened : l.chosen.get? s = none) (kept : l.acceptor.prepare s b = (a, .ok accepted)) :
      Move l [] (l.withAcceptor a)
  | vote {s : Slot} {b : Ballot} {c : Command} {a : Acceptor} {sender : ReplicaId}
      (opened : l.chosen.get? s = none) (asked : Told heard l sender (.accept b s c))
      (kept : l.acceptor.accept s b c = (a, .ok ())) : Move l [] (l.withAcceptor a)
  | hear {e : LogEntry} {sender : ReplicaId} {m : Message} (told : heard sender m)
      (carried : e ∈ m.entries) : Move l [] (l.learn e)
  | win {e : LogEntry} (won : l.Wins e) : Move l [] (l.learn e)
  | submit {c : Command} {next : Word} (due : wanted c)
      (counted : Word.sum l.nextProposal 1 = .ok next) : Move l [] (l.submitted c next)
  | promote {s : Submission} {rest : List Submission} (idle : l.active = none)
      (first : l.waiting = s :: rest) :
      Move l [] { l with active := some (.ofSubmission s), waiting := rest }
  | finish {p : Proposal} {result : Except LedgerError Slot} (current : l.active = some p)
      (found : ∀ s, result = .ok s → l.chosenSince? p.command p.floor = some s) :
      Move l [] { l with
        active := none
        completions := l.completions ++ [⟨p.id, p.command, result⟩] }
  | pause {p : Proposal} (current : l.active = some p) : Move l [] (l.withActive (p.inPhase .backoff))
  | reopen {p : Proposal} {s : Slot} {b : Ballot} (attempts : UInt32) (current : l.active = some p)
      (target : l.firstOpenSlot = .ok s) (unseen : l.highestBallot < b)
      (unpromised : l.acceptor.promised s < b) (own : b.replica = l.replica) {next : Word}
      (counted : Word.sum l.nextAttempt 1 = .ok next) : Move l [] (l.reopen p s b attempts next)
  | countPromise {p : Proposal} {promises : SortedMap ReplicaId (Option (Ballot × Command))}
      {sender : ReplicaId} {accepted : Option (Ballot × Command)} (current : l.active = some p)
      (phase : p.phase = .preparing promises)
      (told : Told heard l sender (.promise p.ballot p.slot accepted)) :
      Move l [] (l.withActive (p.inPhase (.preparing (promises.insert sender accepted))))
  | ask {p : Proposal} {promises : SortedMap ReplicaId (Option (Ballot × Command))}
      (current : l.active = some p) (phase : p.phase = .preparing promises)
      (majority : l.topology.quorum ≤ promises.size)
      (since : l.chosenSince? p.command p.floor = none) :
      Move l [] (l.withActive (p.inPhase (.accepting (p.valueFor promises) ∅)))
  | countVote {p : Proposal} {value : Command} {votes : SortedSet ReplicaId} {sender : ReplicaId}
      (current : l.active = some p) (phase : p.phase = .accepting value votes)
      (told : Told heard l sender (.accepted p.ballot p.slot)) :
      Move l [] (l.withActive (p.inPhase (.accepting value (votes.insert sender ()))))
  | handOut {stop : Slot} {ready : List LogEntry}
      (drained : drainFrom l.nextApply l.chosen.toList = .ok (stop, ready)) :
      Move l ready { l with nextApply := stop }
  | handOver : Move l [] { l with completions := [] }
  | repartition (partition : Partition) : Move l [] { l with partition := partition }

/-- A chain of moves, with the actions asked for and the entries handed out on the way. -/
inductive Moves : ReplicatedLog → List Action → List LogEntry → ReplicatedLog → Prop
  | refl (l : ReplicatedLog) : Moves l [] [] l
  | move {l l' l'' : ReplicatedLog} {actions : List Action} {handed ready : List LogEntry}
      (first : Move heard wanted l handed l') (rest : Moves l' actions ready l'') :
      Moves l actions (handed ++ ready) l''
  | say {l l' : ReplicatedLog} {said actions : List Action} {ready : List LogEntry}
      (truthful : ∀ receiver m, Action.send receiver m ∈ said → l.MaySay m)
      (rest : Moves l actions ready l') : Moves l (said ++ actions) ready l'

variable {heard} {wanted} {l l' l'' : ReplicatedLog} {said actions more : List Action}
  {ready ready' : List LogEntry}

theorem Moves.trans (h : Moves heard wanted l actions ready l') (h' : Moves heard wanted l' more ready' l'') :
    Moves heard wanted l (actions ++ more) (ready ++ ready') l'' := by
  induction h with
  | refl => exact h'
  | move first _ ih =>
      rw [List.append_assoc]
      exact .move first (ih h')
  | say truthful _ ih =>
      rw [List.append_assoc]
      exact .say truthful (ih h')

theorem Move.single (h : Move heard wanted l ready l') : Moves heard wanted l [] ready l' := by
  have hmove : Moves heard wanted l [] (ready ++ []) l' := .move h (.refl l')
  rw [List.append_nil] at hmove
  exact hmove

theorem Moves.saying (h : ∀ receiver m, Action.send receiver m ∈ said → l.MaySay m) :
    Moves heard wanted l said [] l := by
  have hsaid : Moves heard wanted l (said ++ []) [] l := .say h (.refl l)
  rw [List.append_nil] at hsaid
  exact hsaid

end Moves

end ReplicatedLog

end ReplicatedLedger
