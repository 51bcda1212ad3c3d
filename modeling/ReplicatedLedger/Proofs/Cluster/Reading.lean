import ReplicatedLedger.Cluster.Basic
import ReplicatedLedger.Proofs.Books.Conservation
import ReplicatedLedger.Proofs.Replica.Isolation

/-!
What readers of a server see.  The books are published only when their trail has grown, but nothing
else in them changes without it; and the accounts in the ledger are those that the routing table
assigns to the shard.  So readers are told what the replica itself would answer.
-/

namespace ReplicatedLedger

namespace Books

variable {b b' : Books} {entries : List LogEntry} {t : Topology} {balance : Amount}

/-- Books whose trail has not grown are as they were. -/
theorem eq_of_length_applied (h : b.applyAll entries = .ok b')
    (hlength : b'.applied.length = b.applied.length) : b' = b := by
  have hentries := congrArg List.length (entries_applyAll h)
  rw [List.length_append, List.length_map, List.length_map, hlength] at hentries
  have hnone : entries = [] := List.length_eq_zero_iff.1 (by omega)
  subst hnone
  cases h
  rfl

/-- The published ledger knows the accounts that the routing table gives to the shard. -/
theorem balanceOf_snapshot (table : t.routing.Partitioned)
    (h : (opening t balance).applyAll entries = .ok b) (a : AccountId) :
    b.snapshot.balanceOf a = b.balanceOf a := by
  have hheld := (explained_applyAll table h).2.2.held a
  unfold Snapshot.balanceOf snapshot balanceOf requireOwned Ledger.balance
  dsimp only
  cases howned : b.topology.owns a with
  | true =>
      obtain ⟨amount, hamount⟩ := Option.isSome_iff_exists.1 (hheld.2 howned)
      rw [hamount]
      rfl
  | false =>
      have hnone : b.ledger.balance? a = none := by
        cases hbalance : b.ledger.balance? a with
        | none => rfl
        | some amount =>
            rw [hheld.1 (Option.isSome_iff_exists.2 ⟨amount, hbalance⟩)] at howned
            cases howned
      rw [hnone]
      rfl

end Books

namespace Server

/-- A server goes on serving: it handles events one at a time, at whatever times, and in between its
inbox and its answers change in any way. -/
inductive Serves (s : Server) : Server → Prop
  | rest : Serves s s
  | attend {s₁ s₂ : Server} (earlier : Serves s s₁) (replica : s₂.replica = s₁.replica)
      (published : s₂.published = s₁.published) : Serves s s₂
  | process {s₁ s₂ : Server} {now : Duration} {e : Event} {actions : List Action}
      (earlier : Serves s s₁) (processed : s₁.process now e = .ok (s₂, actions)) : Serves s s₂

/-- Handles events at given times, and notes what is to be done for each. -/
def processAll (s : Server) (events : List (Duration × Event)) : List (List Action) × Server :=
  play (fun s event => (s.process event.1 event.2).toOption.map Prod.swap) s events

/-- Whether readers are told at once what the replica would answer to a request. -/
def Tells (s : Server) (request : Request) : Prop :=
  ∃ response, s.published.answer? request = some response ∧
    ∀ id, Machine.handle s.replica (.request id request) = .ok (s.replica, [.respond id response])

variable {s s' s'' : Server} {t : Topology} {policy : ReplicaPolicy} {now : Duration} {e : Event}
  {actions : List Action}

theorem replica_publish (s : Server) : s.publish.replica = s.replica := by
  unfold publish
  split <;> rfl

theorem process_eq_ok_iff : s.process now e = .ok (s', actions) ↔
    ∃ r, Machine.handle (Machine.setTime s.replica now) e = .ok (r, actions) ∧
      s' = { s with replica := r }.publish := by
  unfold process
  rw [bind_eq_ok_iff]
  constructor
  · rintro ⟨⟨r, said⟩, handled, h⟩
    cases h
    exact ⟨r, handled, rfl⟩
  · rintro ⟨r, handled, rfl⟩
    exact ⟨(r, actions), handled, rfl⟩

/-- What was published is up to date again once the new books are, if they differ at all. -/
theorem published_publish {b : Books} {ready : List LogEntry} (current : s.published = b.snapshot)
    (books : b.applyAll ready = .ok s.replica.books) :
    s.publish.published = s.replica.snapshot := by
  unfold publish
  split
  · next hlength =>
    have hsame := Books.eq_of_length_applied books (by rw [hlength, current]; rfl)
    rw [current, ← hsame]
    rfl
  · rfl

namespace Serves

theorem trans (h : Serves s s') (h' : Serves s' s'') : Serves s s'' := by
  induction h' with
  | rest => exact h
  | attend _ replica published ih => exact ih.attend replica published
  | process _ processed ih => exact ih.process processed

theorem processAll (s : Server) (events : List (Duration × Event)) :
    Serves s (s.processAll events).2 := by
  refine play_induction (P := fun _ s' => Serves s s') .rest
    (fun _ s₁ event actions s₂ earlier hnext => ?_) events
  obtain ⟨p, hprocess, hswap⟩ := Option.map_eq_some_iff.1 hnext
  cases hswap
  exact earlier.process (toOption_eq_some_iff.1 hprocess)

/-- The replica of a server has a career of its own. -/
theorem career (h : Serves s s') : ∃ steps, Replica.Career s.replica steps s'.replica := by
  induction h with
  | rest => exact ⟨[], .rest⟩
  | attend _ replica _ ih =>
      rw [replica]
      exact ih
  | @process s₁ s₂ now e actions _ processed ih =>
      obtain ⟨steps, earlier⟩ := ih
      obtain ⟨r, handled, rfl⟩ := process_eq_ok_iff.1 processed
      rw [replica_publish]
      exact ⟨_, .step (s := ⟨s₁.replica, now, e, r, actions⟩) earlier handled⟩

theorem current (h : Serves (start (.start t policy)) s) : s.published = s.replica.snapshot := by
  induction h with
  | rest => rfl
  | attend _ replica published ih => rw [published, ih, replica]
  | @process s₁ s₂ now e actions earlier processed ih =>
      obtain ⟨steps, hcareer⟩ := earlier.career
      obtain ⟨r, handled, rfl⟩ := process_eq_ok_iff.1 processed
      have horder := hcareer.inOrder.setTime now
      obtain ⟨ready, hadvances⟩ : ∃ ready, Replica.Advances (fun _ _ => True) (fun _ => True)
          (Machine.setTime s₁.replica now) actions ready r :=
        Replica.handle_advances horder.coherent horder.settled (fun _ _ _ => trivial)
          (fun _ _ _ => trivial) handled
      rw [replica_publish]
      exact published_publish (s := { s₁ with replica := r }) ih hadvances.books

end Serves

/-- Readers are told of the whole trail, and of the balance of any account at all, what the replica
would answer. -/
theorem Serves.tells (table : t.routing.Partitioned) (h : Serves (start (.start t policy)) s) :
    s.Tells .logs ∧ ∀ a, s.Tells (.balance a) := by
  obtain ⟨steps, hcareer⟩ := h.career
  have horder := hcareer.inOrder
  unfold Tells
  rw [h.current]
  refine ⟨⟨_, rfl, fun id => horder.atRest.handle_of_onEvent rfl⟩, fun a => ⟨_, rfl, fun id => ?_⟩⟩
  have htopology : s.replica.log.topology = t := (Replica.Career.grows .rest hcareer).topology
  rw [← htopology] at table
  have hbalance := Books.balanceOf_snapshot table horder.replays.books a
  refine horder.atRest.handle_of_onEvent ?_
  show Except.ok (s.replica, [Action.respond id (.ofBalance (s.replica.books.balanceOf a))]) = _
  rw [← hbalance]
  rfl

/-- A server that started on a sound table tells its readers, after any number of events, what its
replica would answer.  An account that is not the shard's is refused in the same words. -/
theorem reads_current {ranges : List AccountRange} {groups : SortedMap ShardId (List ReplicaId)}
    {routing : RoutingTable} {q : ReplicaId} (table : RoutingTable.ofRanges ranges groups = .ok routing)
    (place : Topology.of routing q = .ok t) (h : Serves (start (.start t policy)) s) :
    s.Tells .logs ∧ ∀ a, s.Tells (.balance a) := by
  have hrouting : t.routing = routing := by
    unfold Topology.of at place
    split at place
    · cases place
      rfl
    · cases place
  refine h.tells ?_
  rw [hrouting]
  exact (RoutingTable.sound_of_ofRanges table).partitioned

/-! ### A server of two -/

/-- The server of a replica that has learned of a transfer, and not of what comes before it. -/
def awaiting : Server :=
  ((start (.start (Group.pair.topology ⟨1⟩) {})).processAll Replica.learning).2

/-- Until the server of one replica has filled the gap before a transfer, its readers are told the
balance that was there before. -/
theorem reads_current_gap : ∃ s s', (start (.start (Group.pair.topology ⟨1⟩) {})).Serves s ∧
    s.Serves s' ∧
    s.replica.log.chosenAt? ⟨1⟩ = some ⟨⟨1⟩, ⟨1, ⟨2⟩⟩, .transfer ⟨7⟩ ⟨⟨1⟩, ⟨2⟩, 3⟩⟩ ∧
    s.published.answer? (.balance ⟨1⟩) = some (.balance 10) ∧ s.Tells (.balance ⟨1⟩) ∧
    s'.published.answer? (.balance ⟨1⟩) = some (.balance 8) ∧ s'.Tells (.balance ⟨1⟩) ∧
    s'.published.answer? (.balance ⟨5⟩) = some (.error (.invalidShardRouting ⟨5⟩ ⟨0⟩)) ∧
    s'.Tells (.balance ⟨5⟩) ∧ s'.Tells .logs := by
  have hbefore : Serves _ awaiting := .processAll _ Replica.learning
  have hafter := Serves.processAll awaiting [Replica.filling]
  have htable : RoutingTable.ofRanges Group.pair.routing.ranges Group.pair.routing.groups =
      .ok Group.pair.routing := rfl
  have hplace : Topology.of Group.pair.routing ⟨1⟩ = .ok (Group.pair.topology ⟨1⟩) := rfl
  obtain ⟨_, hearly⟩ := reads_current htable hplace hbefore
  obtain ⟨hlogs, hlate⟩ := reads_current htable hplace (hbefore.trans hafter)
  exact ⟨_, _, hbefore, hafter, by decide +kernel, by decide +kernel, hearly ⟨1⟩, by decide +kernel,
    hlate ⟨1⟩, by decide +kernel, hlate ⟨5⟩, hlogs⟩

end Server

namespace Cluster

/-- Every server of a cluster has gone on from one of the cluster as it was. -/
def Since (c c' : Cluster) : Prop :=
  ∀ site s', c'.servers.get? site = some s' → ∃ s, c.servers.get? site = some s ∧ s.Serves s'

variable {c c' c'' : Cluster} {site actor : ReplicaId} {s s' : Server} {rest : List ReplicaId}

namespace Since

theorem refl (c : Cluster) : c.Since c := fun _ s hs => ⟨s, hs, .rest⟩

theorem trans (h : c.Since c') (h' : c'.Since c'') : c.Since c'' := by
  intro site s'' hs''
  obtain ⟨s', hs', hlater⟩ := h' site s'' hs''
  obtain ⟨s, hs, hearlier⟩ := h site s' hs'
  exact ⟨s, hs, hearlier.trans hlater⟩

theorem insert (hs : c.servers.get? site = some s) (h : s.Serves s')
    (hservers : c'.servers = c.servers.insert site s') : c.Since c' := by
  intro k u hu
  rw [hservers, SortedMap.get?_insert] at hu
  split at hu
  · next hk =>
    cases hu
    rw [hk]
    exact ⟨s, hs, h⟩
  · exact ⟨u, hu, .rest⟩

end Since

theorem post_since (c : Cluster) (site : ReplicaId) (e : Event) : c.Since (c.post site e) := by
  unfold post
  split
  · exact .refl c
  · next server hrunning =>
    have hserver := (Option.filter_eq_some_iff.1 hrunning).1
    have hreceived : server.Serves (server.receive e) := .attend .rest rfl rfl
    exact .insert hserver hreceived rfl

/-- Carrying out an action touches inboxes and answers, and nothing that a reader sees. -/
theorem perform_since {a : Action} (h : c.perform actor a = .ok c') : c.Since c' := by
  cases a with
  | send receiver m =>
      change c.send actor receiver m = .ok c' at h
      unfold send at h
      split at h
      · cases h
        exact .refl c
      · split at h
        · cases h
          split
          · exact post_since c receiver _
          · exact .refl c
        · obtain ⟨agenda, _, h⟩ := bind_eq_ok_iff.1 h
          cases h
          exact .refl c
  | respond id response =>
      cases h
      show c.Since (c.answer actor id response)
      unfold answer
      split
      · exact .refl c
      · next server hserver =>
        have hanswered : server.Serves { server with answers := server.answers.insert id response } :=
          .attend .rest rfl rfl
        exact .insert hserver hanswered rfl
  | setTimer t after =>
      obtain ⟨agenda, _, h⟩ := bind_eq_ok_iff.1 h
      cases h
      exact .refl c
  | cancelTimer t =>
      cases h
      exact .refl c

theorem performAll_since {actions : List Action} (h : c.performAll actor actions = .ok c') :
    c.Since c' := by
  induction actions generalizing c with
  | nil =>
      cases h
      exact .refl _
  | cons a actions ih =>
      obtain ⟨c₁, hperform, h⟩ := bind_eq_ok_iff.1 h
      exact (perform_since hperform).trans (ih h)

/-- Serving its turn is one step of a server's life. -/
theorem serve_since (h : c.serve site rest = .ok c') : c.Since c' := by
  unfold serve at h
  split at h
  · cases h
    exact .refl c
  · next server hserver =>
    split at h
    · cases h
      exact .refl c
    · next e inbox hinbox =>
      obtain ⟨⟨processed, actions⟩, hprocess, h⟩ := bind_eq_ok_iff.1 h
      have hopened : server.Serves { server with inbox := inbox } := .attend .rest rfl rfl
      exact (Since.insert hserver (hopened.process hprocess) rfl).trans (performAll_since h)

theorem step?_since (h : c.step? = .ok (some c')) : c.Since c' := by
  unfold step? at h
  split at h
  · obtain ⟨c'', hserve, heq⟩ := map_eq_ok_iff.1 h
    cases heq
    exact serve_since hserve
  · split at h
    · cases h
    · next key e agenda _ =>
      cases h
      exact post_since { c with agenda := agenda } key.site e

theorem runUpTo_since {limit : Nat} (h : c.runUpTo limit = .ok c') : c.Since c' := by
  induction limit generalizing c with
  | zero =>
      cases h
      exact .refl _
  | succ limit ih =>
      obtain ⟨next?, hstep, h⟩ := bind_eq_ok_iff.1 h
      cases next? with
      | none =>
          cases h
          exact .refl _
      | some c'' => exact (step?_since hstep).trans (ih h)

/-- However long a cluster of fresh servers runs, each of them tells its readers what its replica
would answer. -/
theorem tells_of_runUpTo {limit : Nat} {policy : ReplicaPolicy}
    (fresh : ∀ site s, c.servers.get? site = some s →
      ∃ t : Topology, t.routing.Partitioned ∧ s = .start (.start t policy))
    (h : c.runUpTo limit = .ok c') (hs : c'.servers.get? site = some s) :
    s.Tells .logs ∧ ∀ a, s.Tells (.balance a) := by
  obtain ⟨s₀, hs₀, hserves⟩ := runUpTo_since h site s hs
  obtain ⟨t, table, rfl⟩ := fresh site s₀ hs₀
  exact hserves.tells table

end Cluster

end ReplicatedLedger
