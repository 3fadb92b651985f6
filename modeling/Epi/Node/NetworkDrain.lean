import Epi.Node.NetworkOrder

namespace Epi.Node

open Verification Epi.Type Epi.Buffer Epi.Queue

/-- The event takes a frame from the line, or a message from the queue of the mailbox. -/
def Drains {Host : Type} (line : Host × Nat) (host : Host) (mailbox : Nat) :
    NetworkEvent Host → Prop
  | .arrive other _ => other = line
  | .receive other box _ _ => other = host ∧ box = mailbox
  | _ => False

section Drain

variable {Host : Type} [DecidableEq Host] {platform : Platform} {carrier : Carrier} {ei : Ei}
  {fuel acceptor mailbox : Nat} {start net : Network Host} {host : Host} {line : Host × Nat}
  {frame : Frame} {rest : List Frame} {term : ErlTerm} {events : List (NetworkEvent Host)}

/-- Every frame comes back from the receiving call. -/
theorem exists_arrives (carrier : Carrier) (ei : Ei) (frame : Frame) :
    ∃ msg buffer, Arrives carrier ei frame msg buffer := by
  let nobody : ErlangPid := ⟨[], 0, 0, 0⟩
  cases frame with
  | send toPid payload =>
      exact ⟨⟨.erlSend, nobody, carrier.pid toPid, [], []⟩, _,
        @Arrives.send carrier ei toPid payload [] _ rfl rfl⟩
  | regSend fromPid toName payload =>
      exact ⟨⟨.erlRegSend, carrier.pid fromPid, nobody, carrier.name toName, []⟩, _,
        @Arrives.regSend carrier ei fromPid toName payload [] _ rfl rfl rfl⟩

/-- A running acceptor comes back from the pass of a frame. -/
theorem frame_passes (fits : carrier.Lawful) (lawful : ei.Lawful)
    (carries : Frame.Carries ei fuel frame term) {msg : ErlangMsg} {buffer : EIInputBuffer}
    (arrives : Arrives carrier ei frame msg buffer) (platform : Platform) (mCookie : Bytes)
    {before : EIMessageAcceptor} (running : before.mThreadExit = false) :
    ∃ delivered ended, AcceptorStep platform ei (fuel + 1) mCookie before
      ⟨.erlMsg msg buffer, delivered⟩ ended := by
  obtain ⟨destination, sender, carriable, origin, exact, enough, rfl⟩ := carries
  obtain ⟨payload, converted, -⟩ :=
    toMessage_frame fits lawful exact enough carriable origin arrives
  have outcome := @pass_message platform ei (fuel + 1) mCookie msg buffer before
  rw [converted] at outcome
  exact ⟨_, _, .passes running (Prod.ext outcome rfl)⟩

/-- The acceptor of a line that is accepted takes its first frame, and goes on. -/
theorem exists_arrive_step (fits : carrier.Lawful) (lawful : ei.Lawful) {history : History Host}
    (linked : Linked carrier ei fuel start history net)
    (leads : net.far line = some (host, acceptor))
    (running : (net.thread (host, acceptor)).mThreadExit = false)
    (first : net.wire line = frame :: rest) :
    ∃ delivered next, NetworkStep platform carrier ei fuel net (.arrive line delivered) next ∧
      next.wire line = rest ∧ next.far = net.far ∧
      (next.thread (host, acceptor)).mThreadExit = false := by
  obtain ⟨term, carries⟩ := linked.carried line frame (by rw [first]; exact List.mem_cons_self)
  obtain ⟨connection, object, reads⟩ := (linked.hosts host).anchored.fars line acceptor leads
  obtain ⟨msg, buffer, arrives⟩ := exists_arrives carrier ei frame
  obtain ⟨delivered, ended, taken⟩ :=
    frame_passes fits lawful carries arrives platform object.mCookie running
  refine ⟨delivered, _, .arrive leads first reads arrives taken, ?_, rfl, ?_⟩
  · exact Function.update_self _ _ _
  · simp only [Network.setThread, Function.update_self]
    exact (arrive_message fits lawful carries arrives taken).1

/-- The frames on an accepted line can be taken one by one. -/
theorem drain_wire (fits : carrier.Lawful) (lawful : ei.Lawful) (unlinked : Unlinked start)
    (mailbox : Nat) (frames : List Frame) :
    ∀ {events net}, Run (· = start) (NetworkStep platform carrier ei fuel) events net →
      net.far line = some (host, acceptor) →
      (net.thread (host, acceptor)).mThreadExit = false → net.wire line = frames →
      ∃ more final, Run (· = start) (NetworkStep platform carrier ei fuel) (events ++ more) final ∧
        (∀ event ∈ more, Drains line host mailbox event) ∧
        final.far line = some (host, acceptor) ∧ final.wire line = [] := by
  induction frames with
  | nil =>
      intro events net run leads running empty
      exact ⟨[], net, by rwa [List.append_nil], List.forall_mem_nil _, leads, empty⟩
  | cons frame rest ih =>
      intro events net run leads running first
      obtain ⟨delivered, next, taken, left, far, alive⟩ :=
        exists_arrive_step fits lawful (linked_run fits lawful unlinked run) leads running first
      obtain ⟨more, final, further, drains, ends, empty⟩ :=
        ih (run.step taken) (by rw [far]; exact leads) alive left
      rw [List.append_assoc] at further
      exact ⟨_, final, further, List.forall_mem_cons.mpr ⟨rfl, drains⟩, ends, empty⟩

/-- The messages of a mailbox can be received one by one. -/
theorem drain_queue (line : Host × Nat) (host : Host) (mailbox : Nat) (queue : List Nat) :
    ∀ {events net}, Run (· = start) (NetworkStep platform carrier ei fuel) events net →
      (net.node host).queueOf mailbox = queue →
      ∃ more final, Run (· = start) (NetworkStep platform carrier ei fuel) (events ++ more) final ∧
        (∀ event ∈ more, Drains line host mailbox event) ∧ final.far = net.far ∧
        final.wire = net.wire ∧ (final.node host).queueOf mailbox = [] := by
  induction queue with
  | nil =>
      intro events net run empty
      exact ⟨[], net, by rwa [List.append_nil], List.forall_mem_nil _, rfl, rfl, empty⟩
  | cons address rest ih =>
      intro events net run first
      have taken := @NetworkStep.receive Host _ platform carrier ei fuel net host mailbox address
        rest first
      have left : ((net.setNode host (AutoNode.onReceiving mailbox
          (MailBox.receiveNext ei (fuel + 1)) (net.node host)).2).node host).queueOf mailbox =
          rest := by
        simp only [Network.setNode, Function.update_self]
        rw [(receiveNext_takes first ei (fuel + 1)).2, if_pos rfl]
      obtain ⟨more, final, further, drains, far, wire, empty⟩ := ih (run.step taken) left
      rw [List.append_assoc] at further
      exact ⟨_, final, further, List.forall_mem_cons.mpr ⟨⟨rfl, rfl⟩, drains⟩, far, wire, empty⟩

/-- Draining sends nothing. -/
theorem sentOver_drain {more : List (NetworkEvent Host)} {node : AutoNode} {box : Nat}
    (drains : ∀ event ∈ more, Drains line host mailbox event) :
    sentOver line node box (events ++ more) = sentOver line node box events := by
  have none : sentOver line node box more = [] := by
    apply List.filterMap_eq_nil_iff.mpr
    intro event member
    cases event with
    | send other destination term outcome => exact (drains _ member).elim
    | _ => rfl
  rw [sentOver, List.filterMap_append]
  exact (congrArg _ none).trans (List.append_nil _)

/-- Nothing that was sent over an accepted line gets stuck. While the thread of its acceptor runs, the
frames on the wire can be taken and the messages of a mailbox received, until it has received every
term that was sent to it. -/
theorem network_drains {last : Network Host} (fits : carrier.Lawful) (lawful : ei.Lawful)
    (unlinked : Unlinked start)
    (run : Run (· = start) (NetworkStep platform carrier ei fuel) events last)
    (leads : last.far line = some (host, acceptor))
    (running : (last.thread (host, acceptor)).mThreadExit = false) (mailbox : Nat) :
    ∃ more final, Run (· = start) (NetworkStep platform carrier ei fuel) (events ++ more) final ∧
      (∀ event ∈ more, Drains line host mailbox event) ∧
      receivedOver line host mailbox (events ++ more) =
        (sentOver line (start.node host) mailbox events).map fun term => .returns (some term) := by
  obtain ⟨first, middle, arrived, taken, leads, empty⟩ :=
    drain_wire fits lawful unlinked mailbox _ run leads running rfl
  obtain ⟨second, final, received, drained, far, wire, none⟩ :=
    drain_queue line host mailbox _ arrived rfl
  rw [List.append_assoc] at received
  have drains : ∀ event ∈ first ++ second, Drains line host mailbox event :=
    List.forall_mem_append.mpr ⟨taken, drained⟩
  refine ⟨first ++ second, final, received, drains, ?_⟩
  have relay := ((linked_run fits lawful unlinked received).hosts host).relays line mailbox (by
    intro other reader there
    rw [far, leads] at there
    cases there
    rfl)
  rw [none, wire, empty] at relay
  have all := relay.length_eq
  have order := relay.order
  simp only [List.filter_nil, List.length_nil, Nat.add_zero] at all
  simp only [historyOf] at all order
  rw [← all, List.take_length, sentOver_drain drains] at order
  exact order

end Drain

theorem network_drains_seven : ∃ more final,
    Run (fun net => net = pairNetwork) (NetworkStep samplePlatform plainCarrier externalFormat 0)
      ([.send (true, 0) (.pid senderPid) sevenTerm (.returns ()), .works] ++ more) final ∧
    (∀ event ∈ more, Drains (true, 0) false 0 event) ∧
    receivedOver (true, 0) false 0
      ([.send (true, 0) (.pid senderPid) sevenTerm (.returns ()), .works] ++ more) =
        [.returns (some sevenTerm)] :=
  network_drains lawful_plainCarrier ExternalFormat.lawful_externalFormat unlinked_pairNetwork
    accepted_run (show _ = some (false, 0) from rfl) rfl 0

end Epi.Node
