import JcmController.Heartbeat.Detector

/-!
# Several servers and the network between them

Each server repeats `hb_send` and `hb_receive` on its own `server_config`, in threads of their own.
A run is any interleaving of such rounds.

* A datagram that `sendto` took is on its way to the address and port it was sent to. The socket of
  `hb_recv_init` is bound to `my_node`'s `ip` and `hb_port`, and gets only what is on its way there.
* The network delivers as it likes: late, in any order, more than once, or never. A datagram that is
  lost is no longer on its way (`Act.lose`).
* `Packet.src` is nothing that the receiver sees: a datagram holds the text of an ip.
* `hb_exit` ends both loops: a server whose loops have ended takes no more steps.

Results:
* `hbSend_packets`: a round of the sender, in full.
* `roundsOf`, `net_hb`: a run is to each server a run of its receiver.
* **`heard_peer_sent`**: in every run a round hears a peer exactly when it receives a datagram that
  this very peer had sent, to this server.
* **`stopped_server_given_up`**: a server that has stopped sending, all its datagrams having arrived
  or been lost, is shown as down by every other server, which has notified once.
-/

namespace JcmController.Heartbeat

open JcmController.Lib

/-! ## Data -/

/-- A datagram on its way. -/
structure Packet where
  src : Nat
  addr : UInt32
  port : Nat
  msg : Bytes
  deriving DecidableEq

/-- The servers' receivers, and what is on its way. -/
structure Net where
  hb : Nat → Hb
  flight : List Packet

/-- What happens next: a round of a sender, a round of a receiver with the datagram it gets, or a
loss. -/
inductive Act where
  | send (a : Nat) (o : SendRound)
  | receive (a : Nat) (p : Option Packet) (R : Round)
  | lose (p : Packet)

/-- What a `sendto` of server `a` puts on its way. -/
def Packet.ofEvent (a : Nat) : Event → Option Packet
  | .sent _ addr port msg ret => if ret = -1 then none else some ⟨a, addr, port, msg⟩
  | _ => none

/-- The round with this datagram. -/
def deliver (p : Option Packet) (R : Round) : Round := { R with datagram := p.map Packet.msg }

variable {hosts : Nat → Host}

/-- The datagrams a round of the sender of server `a` puts on their way. -/
def sends (hosts : Nat → Host) (n : Net) (a : Nat) (o : SendRound) : List Packet :=
  if (n.hb a).running then (hbSend (hosts a) o (n.hb a).nodes).2.filterMap (Packet.ofEvent a)
  else []

/-- What happens to the servers and the network. The events are the datagrams sent. -/
def netStep (hosts : Nat → Host) (n : Net) : Act → Net × List Packet
  | .send a o => (⟨n.hb, n.flight ++ sends hosts n a o⟩, sends hosts n a o)
  | .receive a p R =>
    (⟨Function.update n.hb a (step (hosts a) (n.hb a) (deliver p R)).1, n.flight⟩, [])
  | .lose p => (⟨n.hb, n.flight.filter (· ≠ p)⟩, [])

/-- A datagram that is received is on its way to the receiver's socket. -/
def Arrives (hosts : Nat → Host) (n : Net) : Act → Prop
  | .receive a (some p) _ => p ∈ n.flight ∧
      p.addr = (hosts a).proc.inetAddr (hosts a).myNode.ip ∧
      p.port = ushort ((hosts a).proc.atoi (hosts a).myNode.hbPort)
  | _ => True

/-- The servers after their `hb_start`. -/
def netStarted (hosts : Nat → Host) (before : Nat → Option HbState) : Net :=
  ⟨fun a => started (hosts a) (before a), []⟩

/-- The rounds of a server's receiver. -/
def roundsOf (a : Nat) (acts : List Act) : List Round :=
  acts.filterMap fun
    | .receive b p R => if b = a then some (deliver p R) else none
    | _ => none

/-! ## The servers in a run -/

/-- **A run is to each server a run of its receiver.** -/
theorem net_hb (a : Nat) (n : Net) (acts : List Act) :
    (final (netStep hosts) n acts).hb a = final (step (hosts a)) (n.hb a) (roundsOf a acts) := by
  refine @final_projects _ _ _ _ _ _ (netStep hosts) (step (hosts a)) (fun n => n.hb a) _
    (fun n act R hR => ?_) (fun n act hR => ?_) acts n
  · cases act with
    | send b o => cases hR
    | lose p => cases hR
    | receive b p R' =>
      by_cases hb : b = a
      · subst hb
        simp only [if_true, Option.some.injEq] at hR
        subst hR
        exact Function.update_self _ _ _
      · simp only [if_neg hb] at hR
        cases hR
  · cases act with
    | send b o => rfl
    | lose p => rfl
    | receive b p R' =>
      by_cases hb : b = a
      · simp only [if_pos hb] at hR
        cases hR
      · exact Function.update_of_ne (Ne.symm hb) _ _

theorem roundsOf_append (a : Nat) (acts acts' : List Act) :
    roundsOf a (acts ++ acts') = roundsOf a acts ++ roundsOf a acts' := List.filterMap_append

/-! ## The sender -/

/-- The datagram for the node at place `i`. -/
def packetFor (h : Host) (a : Nat) (o : SendRound) (i : Nat) (node : ServerNode) : Option Packet :=
  if node.ip = h.myNode.ip ∨ o.sendto i = -1 then none
  else some ⟨a, h.proc.inetAddr node.ip, ushort (h.proc.atoi node.hbPort), h.myNode.ip⟩

theorem hbSendLoop_packets (h : Host) (a : Nat) (o : SendRound) (nodes : List ServerNode) (i : Nat)
    (ret : Int) :
    (hbSendLoop h o nodes i ret).2.filterMap (Packet.ofEvent a) =
      (nodes.zipIdx i).filterMap fun e => packetFor h a o e.2 e.1 := by
  induction nodes generalizing i ret with
  | nil => rfl
  | cons node nodes ih =>
    rw [hbSendLoop, List.zipIdx_cons, List.filterMap_cons]
    by_cases hme : node.ip = h.myNode.ip
    · rw [if_pos hme, ih, packetFor, if_pos (Or.inl hme)]
    · rw [if_neg hme, List.filterMap_cons, ih, packetFor, Packet.ofEvent]
      by_cases hret : o.sendto i = -1
      · rw [if_pos hret, if_pos (Or.inr hret)]
      · rw [if_neg hret, if_neg (not_or.mpr ⟨hme, hret⟩)]

/-- **A round of the sender** puts one datagram on its way for each other server, in the order of
the list, whatever comes of the others. -/
theorem hbSend_packets (h : Host) (a : Nat) (o : SendRound) (nodes : List ServerNode) :
    (hbSend h o nodes).2.filterMap (Packet.ofEvent a) =
      if o.socket < 0 then [] else nodes.zipIdx.filterMap fun e => packetFor h a o e.2 e.1 := by
  unfold hbSend
  by_cases hs : o.socket < 0
  · rw [if_pos hs, if_pos hs]
    rfl
  · rw [if_neg hs, if_neg hs]
    simp only [List.cons_append, List.filterMap_cons, List.filterMap_append, Packet.ofEvent,
      List.filterMap_nil, List.append_nil, hbSendLoop_packets]

/-! ## What is on its way -/

/-- Where `hb_send` sends to. -/
def ServerNode.endpoint (node : ServerNode) : Bytes × Bytes := (node.ip, node.hbPort)

theorem visit_endpoint (h : Host) (R : Round) (i : Nat) (node : ServerNode) (l : Files) :
    (visit h R i node l).state.1.endpoint = node.endpoint := by
  rw [(visit_does h R i node l).marks]
  rfl

theorem visitLoop_endpoints (h : Host) (R : Round) (nodes : List ServerNode) (i : Nat)
    (l : Files) :
    (visitLoop h R nodes i l).state.1.map ServerNode.endpoint =
      nodes.map ServerNode.endpoint := by
  induction nodes generalizing i l with
  | nil => rfl
  | cons node nodes ih =>
    by_cases hgo : (visit h R i node l).exit = .go
    · rw [visitLoop_go hgo, List.map_cons, List.map_cons, visit_endpoint, ih]
    · rw [visitLoop_stop hgo, List.map_cons, List.map_cons, visit_endpoint]

theorem hear_endpoints (h : Host) (R : Round) (nodes : List ServerNode) (i : Nat) :
    (hear h R nodes i).map ServerNode.endpoint = nodes.map ServerNode.endpoint := by
  induction nodes generalizing i with
  | nil => rfl
  | cons node nodes ih =>
    obtain ⟨t, ht⟩ := hearNode_eq h R i node
    rw [hear, List.map_cons, ih, ht]
    rfl

/-- The endpoints are the configured ones. -/
def Endpoints (h : Host) (s : Hb) : Prop :=
  s.nodes.map ServerNode.endpoint = h.serverConfig.map ServerNode.endpoint

theorem step_endpoints {h : Host} {s : Hb} (hs : Endpoints h s) (R : Round) :
    Endpoints h (step h s R).1 := by
  unfold step
  by_cases hrun : s.running = true
  · rw [if_pos hrun]
    exact (visitLoop_endpoints h R _ 0 _).trans ((hear_endpoints h R s.nodes 0).trans hs)
  · rw [if_neg hrun]
    exact hs

/-- A heartbeat: the sender's ip, on its way to another server of the sender's configuration. -/
structure IsHeartbeat (hosts : Nat → Host) (p : Packet) : Prop where
  msg : p.msg = (hosts p.src).myNode.ip
  target : ∃ node ∈ (hosts p.src).serverConfig, node.ip ≠ (hosts p.src).myNode.ip ∧
    p.addr = (hosts p.src).proc.inetAddr node.ip ∧
    p.port = ushort ((hosts p.src).proc.atoi node.hbPort)

/-- What a round of a sender puts on its way. -/
theorem mem_sends {n : Net} {a : Nat} {o : SendRound} (hs : Endpoints (hosts a) (n.hb a))
    {p : Packet} (hp : p ∈ sends hosts n a o) : p.src = a ∧ IsHeartbeat hosts p := by
  unfold sends at hp
  by_cases hrun : (n.hb a).running = true
  case neg =>
    rw [if_neg hrun] at hp
    exact absurd hp List.not_mem_nil
  rw [if_pos hrun, hbSend_packets] at hp
  by_cases hsock : o.socket < 0
  · rw [if_pos hsock] at hp
    exact absurd hp List.not_mem_nil
  · rw [if_neg hsock] at hp
    obtain ⟨⟨node, i⟩, hmem, hfor⟩ := List.mem_filterMap.mp hp
    by_cases hno : node.ip = (hosts a).myNode.ip ∨ o.sendto i = -1
    · simp only [packetFor, if_pos hno] at hfor
      cases hfor
    · simp only [packetFor, if_neg hno, Option.some.injEq] at hfor
      subst hfor
      have hend : node.endpoint ∈ (hosts a).serverConfig.map ServerNode.endpoint := by
        rw [← hs]
        exact List.mem_map_of_mem (List.fst_mem_of_mem_zipIdx hmem)
      obtain ⟨node', hmem', heq⟩ := List.mem_map.mp hend
      obtain ⟨hip, hport⟩ := Prod.mk.inj heq
      refine ⟨rfl, rfl, node', hmem', ?_, ?_, ?_⟩
      · rw [hip]
        exact (not_or.mp hno).1
      · rw [hip]
      · rw [hport]

/-- What holds of the network in every run. -/
structure Sound (hosts : Nat → Host) (n : Net) : Prop where
  servers : ∀ a, Endpoints (hosts a) (n.hb a)
  flight : ∀ p ∈ n.flight, IsHeartbeat hosts p

/-- **One step.** What is sent is a heartbeat of the server whose step it is, and what is on its way
was there before or is sent. -/
theorem netStep_sound {n : Net} (hn : Sound hosts n) (act : Act) :
    Sound hosts (netStep hosts n act).1 ∧
      (∀ p ∈ (netStep hosts n act).2, IsHeartbeat hosts p ∧ ∃ o, act = .send p.src o) ∧
      ∀ p ∈ (netStep hosts n act).1.flight, p ∈ n.flight ∨ p ∈ (netStep hosts n act).2 := by
  cases act with
  | send a o =>
    have hsent := fun p hp => mem_sends (p := p) (o := o) (hn.servers a) hp
    refine ⟨⟨hn.servers, fun p hp => ?_⟩, fun p hp => ?_, fun p hp => List.mem_append.mp hp⟩
    · rcases List.mem_append.mp hp with hp | hp
      · exact hn.flight p hp
      · exact (hsent p hp).2
    · obtain ⟨hsrc, hheart⟩ := hsent p hp
      exact ⟨hheart, o, by rw [hsrc]⟩
  | receive a p R =>
    refine ⟨⟨fun b => ?_, hn.flight⟩, fun p hp => absurd hp List.not_mem_nil, fun p hp => Or.inl hp⟩
    show Endpoints (hosts b) (Function.update n.hb a _ b)
    by_cases hb : b = a
    · subst hb
      rw [Function.update_self]
      exact step_endpoints (hn.servers b) _
    · rw [Function.update_of_ne hb]
      exact hn.servers b
  | lose p =>
    have hkept : ∀ q ∈ n.flight.filter (· ≠ p), q ∈ n.flight := fun _ hq =>
      List.mem_of_mem_filter hq
    exact ⟨⟨hn.servers, fun q hq => hn.flight q (hkept q hq)⟩,
      fun q hq => absurd hq List.not_mem_nil, fun q hq => Or.inl (hkept q hq)⟩

theorem netStarted_sound (before : Nat → Option HbState) : Sound hosts (netStarted hosts before) :=
  ⟨fun _ => rfl, fun _ hp => absurd hp List.not_mem_nil⟩

/-! ## What is heard -/

/-- The ip is a string that `recvfrom` gets whole. -/
structure ServerNode.Named (node : ServerNode) : Prop where
  free : NulFree node.ip
  nonempty : node.ip ≠ []
  fits : node.ip.length ≤ IP_SIZE

theorem recvData_none (R : Round) : (deliver none R).recvData = [] := rfl

/-- A heartbeat is read as the ip it holds. -/
theorem recvData_some {p : Packet} {node : ServerNode} (hnode : node.Named) (hmsg : p.msg = node.ip)
    (R : Round) : (deliver (some p) R).recvData = node.ip := by
  have hlen := hnode.fits
  show cstr (overlay (List.replicate BUF_SIZE 0) (p.msg.take IP_SIZE)) = node.ip
  rw [hmsg, List.take_of_length_le hlen, overlay, List.drop_replicate,
    show BUF_SIZE - node.ip.length = (BUF_SIZE - node.ip.length - 1) + 1 by
      unfold BUF_SIZE IP_SIZE at *
      omega, List.replicate_succ]
  exact cstr_append_zero_cons hnode.free _

/-- What a round receives, from the datagram that arrives. -/
theorem recvData_iff (hnamed : ∀ a, ∀ node ∈ (hosts a).serverConfig, node.Named) {n : Net}
    (hn : Sound hosts n) {a : Nat} {p : Option Packet} {R : Round}
    (harr : Arrives hosts n (.receive a p R)) {ip : Bytes} (hip : ip ≠ []) :
    ip = (deliver p R).recvData ↔ ∃ q, p = some q ∧ (hosts q.src).myNode.ip = ip := by
  cases p with
  | none =>
    rw [recvData_none]
    refine iff_of_false hip ?_
    rintro ⟨q, hq, _⟩
    cases hq
  | some q =>
    have hheart := hn.flight q harr.1
    rw [recvData_some (hnamed q.src _ (hosts q.src).found) hheart.msg]
    constructor
    · exact fun h => ⟨q, rfl, h.symm⟩
    · rintro ⟨q', hq', h⟩
      obtain rfl := Option.some.inj hq'
      exact h.symm

/-- The time of a peer after a round. -/
theorem step_hbTime {h : Host} {s : Hb} {R : Round} (hrun : s.running = true) {k : Nat}
    {node₀ node₁ : ServerNode} (h₀ : s.nodes[k]? = some node₀)
    (h₁ : (step h s R).1.nodes[k]? = some node₁) (hpeer : node₀.ip ≠ h.myNode.ip) :
    node₁.hbTime = if node₀.ip = R.recvData then R.clock k else node₀.hbTime := by
  have hheard : (hear h R s.nodes 0)[k]? = some (hearNode h R k node₀) := by
    rw [hear_getElem?, h₀, Option.map_some, Nat.zero_add]
  have htime : (hearNode h R k node₀).hbTime =
      if node₀.ip = R.recvData then R.clock k else node₀.hbTime := by
    unfold hearNode
    rw [if_neg hpeer]
    split <;> rfl
  rw [← htime]
  have hstep : step h s R = hbReceive h R s := if_pos hrun
  rw [hstep] at h₁
  rcases (visitLoop_marks _ 0 _).2 k node₁ h₁ with hsame | ⟨t, _, _, hk, rfl⟩
  · exact congrArg ServerNode.hbTime (Option.some.inj (hsame.symm.trans hheard))
  · have hnode := congrArg ServerNode.hbTime (Option.some.inj (hk.symm.trans hheard))
    exact hnode

/-! ## Runs -/

/-- What is on its way in a run was so at the start, or a step of its sender has sent it. -/
theorem flight_sent {n : Net} (hn : Sound hosts n) (acts : List Act) :
    Sound hosts (final (netStep hosts) n acts) ∧
      ∀ p ∈ (final (netStep hosts) n acts).flight, p ∈ n.flight ∨
        ∃ t ∈ trace (netStep hosts) n acts, p ∈ t.events ∧ ∃ o, t.input = .send p.src o := by
  induction acts using List.reverseRecOn with
  | nil => exact ⟨hn, fun p hp => Or.inl hp⟩
  | append_singleton acts act ih =>
    obtain ⟨hsound, hflight⟩ := ih
    obtain ⟨hsound', hsent, hnew⟩ := netStep_sound hsound act
    rw [final_concat, trace_append]
    refine ⟨hsound', fun p hp => ?_⟩
    rcases hnew p hp with hold | hp
    · refine (hflight p hold).imp_right ?_
      rintro ⟨t, ht, h⟩
      exact ⟨t, List.mem_append_left _ ht, h⟩
    · exact Or.inr ⟨_, List.mem_append_right _ (List.mem_singleton_self _), hp, (hsent p hp).2⟩

/-- **A peer's time is refreshed by its own heartbeats only**: when a server receives, in a run with
any interleaving and any loss, delay, reordering or duplication of datagrams, either the datagram is
one that this very peer had sent, and the peer's `hb_time` is the time of the round; or it is none
of the peer's, and its `hb_time` stays as it is. -/
theorem heard_peer_sent (hosts : Nat → Host)
    (hnamed : ∀ a, ∀ node ∈ (hosts a).serverConfig, node.Named) (before : Nat → Option HbState)
    (acts : List Act) (a : Nat) (p : Option Packet) (R : Round)
    (harr : ∀ t ∈ trace (netStep hosts) (netStarted hosts before) (acts ++ [.receive a p R]),
      Arrives hosts t.before t.input)
    (hrun : ((final (netStep hosts) (netStarted hosts before) acts).hb a).running = true) (k : Nat)
    (node₀ node₁ : ServerNode)
    (h₀ : ((final (netStep hosts) (netStarted hosts before) acts).hb a).nodes[k]? = some node₀)
    (h₁ : ((final (netStep hosts) (netStarted hosts before)
      (acts ++ [.receive a p R])).hb a).nodes[k]? = some node₁)
    (hpeer : node₀.ip ≠ (hosts a).myNode.ip) :
    (∃ q, p = some q ∧ (hosts q.src).myNode.ip = node₀.ip ∧ node₁.hbTime = R.clock k ∧
        ∃ t ∈ trace (netStep hosts) (netStarted hosts before) acts, q ∈ t.events ∧
          ∃ o, t.input = .send q.src o) ∨
      (∀ q, p = some q → (hosts q.src).myNode.ip ≠ node₀.ip) ∧ node₁.hbTime = node₀.hbTime := by
  obtain ⟨hsound, hflight⟩ := flight_sent (netStarted_sound before) acts
  have hlast : Arrives hosts (final (netStep hosts) (netStarted hosts before) acts)
      (.receive a p R) := by
    rw [trace_append] at harr
    exact harr ⟨_, .receive a p R, []⟩ (List.mem_append_right _ List.mem_cons_self)
  have hname : node₀.ip ≠ [] := by
    obtain ⟨node, hmem, heq⟩ := List.mem_map.mp
      (hsound.servers a ▸ List.mem_map_of_mem (List.mem_of_getElem? h₀) :
        node₀.endpoint ∈ (hosts a).serverConfig.map ServerNode.endpoint)
    rw [← (Prod.mk.inj heq).1]
    exact (hnamed a node hmem).nonempty
  rw [final_concat] at h₁
  have hself : ((netStep hosts (final (netStep hosts) (netStarted hosts before) acts)
      (.receive a p R)).1.hb a) = (step (hosts a)
        ((final (netStep hosts) (netStarted hosts before) acts).hb a) (deliver p R)).1 :=
    Function.update_self _ _ _
  rw [hself] at h₁
  have htime := step_hbTime hrun h₀ h₁ hpeer
  by_cases hq : node₀.ip = (deliver p R).recvData
  · rw [if_pos hq] at htime
    obtain ⟨q, rfl, hip⟩ := (recvData_iff hnamed hsound hlast hname).mp hq
    refine Or.inl ⟨q, rfl, hip, htime, ?_⟩
    exact (hflight q hlast.1).resolve_left List.not_mem_nil
  · rw [if_neg hq] at htime
    refine Or.inr ⟨fun q hp hip => ?_, htime⟩
    exact hq ((recvData_iff hnamed hsound hlast hname).mpr ⟨q, hp, hip⟩)

/-! ## Two servers -/

/-- `inet_addr`, with the addresses of the two. -/
def pairInet (s : Bytes) : UInt32 :=
  if s = ascii "10.0.0.1" then 0x0100000A
  else if s = ascii "10.0.0.2" then 0x0200000A else inetOf s

/-- The servers of `twoHosts`: number 1 is 10.0.0.2. -/
def pair (a : Nat) : Host :=
  if a = 1 then
    { twoHosts with
      proc := ⟨1, pairInet, fun _ => 5000⟩
      myNode := nodeAt "10.0.0.2"
      found := List.mem_cons_of_mem _ List.mem_cons_self }
  else { twoHosts with proc := ⟨1, pairInet, fun _ => 5000⟩ }

theorem pair_config (a : Nat) : (pair a).serverConfig = twoHosts.serverConfig := by
  unfold pair
  split <;> rfl

theorem pair_named (a : Nat) : ∀ node ∈ (pair a).serverConfig, node.Named := by
  rw [pair_config]
  exact List.forall_mem_cons.mpr ⟨⟨by decide +kernel, by decide +kernel, by decide +kernel⟩,
    List.forall_mem_singleton.mpr ⟨by decide +kernel, by decide +kernel, by decide +kernel⟩⟩

theorem pair_unique (c : Nat) (h : (pair c).myNode.ip = (pair 1).myNode.ip) : c = 1 := by
  by_contra hc
  have hip : (pair c).myNode.ip = ascii "10.0.0.1" := by
    unfold pair
    rw [if_neg hc]
    rfl
  rw [hip] at h
  exact absurd h (by decide +kernel)

/-- The heartbeat of 10.0.0.2 to 10.0.0.1. -/
def toFirst : Packet := ⟨1, 0x0100000A, 5000, ascii "10.0.0.2"⟩

/-- It is sent, received and lost. -/
def oneBeat : List Act :=
  [.send 1 ⟨3, fun _ => 8⟩, .receive 0 (some toFirst) (silentRound 1000), .lose toFirst]

/-- Before it is received. -/
def beforeBeat : Net := final (netStep pair) (netStarted pair fun _ => none) (oneBeat.take 1)

theorem toFirst_arrives (R : Round) : Arrives pair beforeBeat (.receive 0 (some toFirst) R) :=
  ⟨by decide +kernel, by decide +kernel, by decide +kernel⟩

theorem beforeBeat_first : (beforeBeat.hb 0).nodes[1]? = some (nodeAt "10.0.0.2") ∧
    (beforeBeat.hb 0).running = true :=
  ⟨by decide +kernel, by decide +kernel⟩

/-- The one heartbeat is heard. -/
theorem heard_peer_sent_two :
    ∃ q, some toFirst = some q ∧ (pair q.src).myNode.ip = ascii "10.0.0.2" := by
  have hout := heard_peer_sent pair pair_named (fun _ => none) (oneBeat.take 1) 0 (some toFirst)
    (silentRound 1000) (by
      intro t ht
      rcases List.mem_cons.mp ht with rfl | ht
      · trivial
      · obtain rfl := List.mem_singleton.mp ht
        exact toFirst_arrives _) beforeBeat_first.2 1 (nodeAt "10.0.0.2")
    { nodeAt "10.0.0.2" with hbTime := 1000 } beforeBeat_first.1 (by decide +kernel)
    (by decide +kernel)
  rcases hout with ⟨q, hq, hip, _⟩ | ⟨_, htime⟩
  · exact ⟨q, hq, hip⟩
  · exact absurd htime (by decide)

/-! ## A server that stops -/

/-- No datagram of server `b` is on its way. -/
def Gone (b : Nat) (n : Net) : Prop := ∀ q ∈ n.flight, q.src ≠ b

/-- **One step** of a network without datagrams of a server that does not send: there are none
afterwards, and no round hears it. -/
theorem netStep_gone (hnamed : ∀ a, ∀ node ∈ (hosts a).serverConfig, node.Named) {b : Nat}
    (hunique : ∀ c, (hosts c).myNode.ip = (hosts b).myNode.ip → c = b) {n : Net} {act : Act}
    (hn : Sound hosts n) (hgone : Gone b n) (harr : Arrives hosts n act)
    (hquiet : ∀ o, act ≠ .send b o) :
    Gone b (netStep hosts n act).1 ∧ ∀ a p R k, act = .receive a p R →
      (hosts a).serverConfig[k]?.map ServerNode.ip = some (hosts b).myNode.ip →
        heardIn (hosts a) (deliver p R) k = none := by
  obtain ⟨_, hsent, hflight⟩ := netStep_sound hn act
  refine ⟨fun q hq => ?_, ?_⟩
  · rcases hflight q hq with hold | hnew
    · exact hgone q hold
    · rintro rfl
      obtain ⟨_, o, ho⟩ := hsent q hnew
      exact hquiet o ho
  · rintro a p R k rfl hk
    unfold heardIn
    refine if_neg ?_
    rintro ⟨_, hheard⟩
    have hne := (hnamed b _ (hosts b).found).nonempty
    obtain ⟨q, rfl, hip⟩ := (recvData_iff hnamed hn harr hne).mp
      (Option.some.inj (hk.symm.trans hheard))
    exact hgone q harr.1 (hunique q.src hip)

/-- A run in which the server does not send: it is not heard. -/
theorem roundsOf_unheard (hnamed : ∀ a, ∀ node ∈ (hosts a).serverConfig, node.Named) {b : Nat}
    (hunique : ∀ c, (hosts c).myNode.ip = (hosts b).myNode.ip → c = b) {n : Net}
    (hn : Sound hosts n) (hgone : Gone b n) {acts : List Act}
    (harr : ∀ t ∈ trace (netStep hosts) n acts, Arrives hosts t.before t.input)
    (hquiet : ∀ o, .send b o ∉ acts) {a k : Nat}
    (hk : (hosts a).serverConfig[k]?.map ServerNode.ip = some (hosts b).myNode.ip) :
    ∀ R ∈ roundsOf a acts, heardIn (hosts a) R k = none := by
  have hstep : ∀ s act, (Sound hosts s ∧ Gone b s) →
      (Arrives hosts s act ∧ ∀ o, act ≠ .send b o) →
        (Sound hosts (netStep hosts s act).1 ∧ Gone b (netStep hosts s act).1) ∧
          ∀ p R, act = .receive a p R → heardIn (hosts a) (deliver p R) k = none := by
    rintro s act ⟨hs, hg⟩ ⟨ha, hq⟩
    obtain ⟨hg', hheard⟩ := netStep_gone hnamed hunique hs hg ha hq
    exact ⟨⟨(netStep_sound hs act).1, hg'⟩, fun p R h => hheard a p R k h hk⟩
  have hall := forall_trace (P := fun _ act _ => ∀ p R, act = .receive a p R →
    heardIn (hosts a) (deliver p R) k = none) hstep acts n ⟨hn, hgone⟩ fun t ht =>
      ⟨harr t ht, fun o ho => hquiet o (ho ▸ input_mem_of_mem_trace ht)⟩
  intro R' hR'
  obtain ⟨act, hact, hround⟩ := List.mem_filterMap.mp hR'
  obtain ⟨t, ht, rfl⟩ : ∃ t ∈ trace (netStep hosts) n acts, t.input = act := exists_mem_trace hact
  cases hin : t.input with
  | send c o =>
    rw [hin] at hround
    cases hround
  | lose q =>
    rw [hin] at hround
    cases hround
  | receive c p R =>
    rw [hin] at hround
    by_cases hc : c = a
    · subst hc
      simp only [if_true, Option.some.injEq] at hround
      subst hround
      exact hall t ht p R hin
    · simp only [if_neg hc] at hround
      cases hround

theorem lastHeard_append {h : Host} {k : Nat} (pre : List Round) {Rs : List Round}
    (hRs : ∀ R ∈ Rs, heardIn h R k = none) : lastHeard h (pre ++ Rs) k = lastHeard h pre k := by
  unfold lastHeard
  rw [List.filterMap_append, List.filterMap_eq_nil_iff.mpr hRs, List.append_nil]

/-- A peer that is not heard is silent in the rounds that start late enough. -/
theorem silentIn_of_unheard {h : Host} {k : Nat} (hpeer : isPeer h k = true)
    {pre post : List Round} (hunheard : ∀ R ∈ post, heardIn h R k = none)
    (hlate : ∀ R ∈ post, 11000 ≤ |R.hbC - lastHeard h pre k| ∧
      |R.hbC - lastHeard h pre k| < 2 ^ 31 * 1000) :
    ∀ mid R rest, post = mid ++ R :: rest → SilentIn h (pre ++ mid) R k := by
  intro mid R rest hsplit
  have hmem : ∀ R' ∈ mid ++ [R], R' ∈ post := by
    intro R' hR'
    rw [hsplit, List.append_cons]
    exact List.mem_append_left _ hR'
  have hR : R ∈ post := hmem R (List.mem_append_right _ List.mem_cons_self)
  refine ⟨hpeer, ?_⟩
  rw [List.append_assoc, lastHeard_append _ fun R' hR' => hunheard R' (hmem R' hR'),
    silent_iff (hlate R hR).2]
  exact (hlate R hR).1

/-- **A server that has stopped is given up** by every other server: it no longer sends, and none of
its datagrams is on its way. A server that showed it as up, and whose rounds from there on start at
least 11000 ticks from when it was last heard, and no further from it than an `int` of thousands
reaches, one of them getting as far as its entry, shows it as down in the end, in memory and in
`hb_state`, and has notified for it exactly once. -/
theorem stopped_server_given_up (hosts : Nat → Host)
    (hnamed : ∀ a, ∀ node ∈ (hosts a).serverConfig, node.Named) (before : Nat → Option HbState)
    (acts acts' : List Act)
    (harr : ∀ t ∈ trace (netStep hosts) (netStarted hosts before) (acts ++ acts'),
      Arrives hosts t.before t.input)
    (b : Nat) (hunique : ∀ c, (hosts c).myNode.ip = (hosts b).myNode.ip → c = b)
    (hgone : Gone b (final (netStep hosts) (netStarted hosts before) acts))
    (hquiet : ∀ o, .send b o ∉ acts') (a : Nat)
    (hips : ((hosts a).serverConfig.map ServerNode.ip).Nodup)
    (hconn : ∀ node ∈ (hosts a).serverConfig, node.disconnect = CONNECT)
    (hrun : ((final (netStep hosts) (netStarted hosts before) (acts ++ acts')).hb a).running = true)
    (k : Nat) (node₀ node : ServerNode)
    (hk₀ : ((final (netStep hosts) (netStarted hosts before) acts).hb a).nodes[k]? = some node₀)
    (hk : ((final (netStep hosts) (netStarted hosts before) (acts ++ acts')).hb a).nodes[k]? =
      some node)
    (hip : node.ip = (hosts b).myNode.ip) (hpeer : node.ip ≠ (hosts a).myNode.ip)
    (hup : node₀.disconnect ≠ DISCONNECT)
    (hlate : ∀ R ∈ roundsOf a acts',
      11000 ≤ |R.hbC - lastHeard (hosts a) (roundsOf a acts) k| ∧
        |R.hbC - lastHeard (hosts a) (roundsOf a acts) k| < 2 ^ 31 * 1000)
    (hreach : ∃ mid R rest, roundsOf a acts' = mid ++ R :: rest ∧
      Reaches (hosts a) (roundsOf a acts ++ mid) R k) :
    node.disconnect = DISCONNECT ∧
      entryIn ((final (netStep hosts) (netStarted hosts before) (acts ++ acts')).hb a).hbState
        node.ip = some (ascii "disconnect") ∧
      downs k (runEvents (hosts a)
        ((final (netStep hosts) (netStarted hosts before) acts).hb a) (roundsOf a acts')) = 1 := by
  have hstart : (netStarted hosts before).hb a = started (hosts a) (before a) := rfl
  rw [net_hb, hstart, roundsOf_append] at hrun hk ⊢
  rw [net_hb, hstart] at hk₀ ⊢
  have hnodes := (run_tracks hips hconn (before a) _ hrun).agreement.1
  have hpeers := (isPeer_of_getElem? hnodes hk).mpr hpeer
  have hentry : (hosts a).serverConfig[k]?.map ServerNode.ip = some (hosts b).myNode.ip := by
    rw [← List.getElem?_map, ← hnodes, List.getElem?_map, hk, Option.map_some, hip]
  have hunheard : ∀ R ∈ roundsOf a acts', heardIn (hosts a) R k = none := by
    refine roundsOf_unheard hnamed hunique (flight_sent (netStarted_sound before) acts).1 hgone
      (fun t ht => harr t ?_) hquiet hentry
    rw [trace_append]
    exact List.mem_append_right _ ht
  have hsilent := silentIn_of_unheard hpeers hunheard hlate
  have hdown := outage_down hsilent hreach
  have hbefore := run_tracks hips hconn (before a) (roundsOf a acts) (running_of_append hrun)
  have hafter := run_tracks hips hconn (before a) _ hrun
  refine ⟨(hafter.marks k node hk hpeers).mpr hdown, ?_, ?_⟩
  · rw [hafter.entry hk hpeers, if_pos hdown]
  · rw [outage_downs hips hconn (before a) _ _ hrun hsilent
      fun hd => hup ((hbefore.marks k node₀ hk₀ hpeers).mpr hd), if_pos hdown]

/-- Then it sends no more, and is given up. -/
theorem stopped_server_given_up_two :
    downs 1 (runEvents (pair 0)
      ((final (netStep pair) (netStarted pair fun _ => none) oneBeat).hb 0)
      (roundsOf 0 [.receive 0 none (silentRound 20000)])) = 1 := by
  have hrounds : roundsOf 0 [.receive 0 none (silentRound 20000)] = [silentRound 20000] := rfl
  have hlast : lastHeard (pair 0) (roundsOf 0 oneBeat) 1 = 1000 := by decide +kernel
  refine (stopped_server_given_up pair pair_named (fun _ => none) oneBeat
    [.receive 0 none (silentRound 20000)] ?_ 1 pair_unique ?_ ?_ 0 twoHosts_ips (by decide)
    (by decide +kernel) 1 { nodeAt "10.0.0.2" with hbTime := 1000 }
    { nodeAt "10.0.0.2" with hbTime := 1000, disconnect := DISCONNECT } (by decide +kernel)
    (by decide +kernel) (by decide +kernel) (by decide +kernel) (by decide) ?_ ?_).2.2
  · intro t ht
    rcases List.mem_cons.mp ht with rfl | ht
    · trivial
    · rcases List.mem_cons.mp ht with rfl | ht
      · exact toFirst_arrives _
      · rcases List.mem_cons.mp ht with rfl | ht
        · trivial
        · obtain rfl := List.mem_singleton.mp ht
          trivial
  · have hnone : (final (netStep pair) (netStarted pair fun _ => none) oneBeat).flight = [] := by
      decide +kernel
    intro q hq
    rw [hnone] at hq
    exact absurd hq List.not_mem_nil
  · intro o ho
    cases List.mem_singleton.mp ho
  · rw [hlast, hrounds]
    exact List.forall_mem_singleton.mpr (by decide +kernel)
  · refine ⟨[], silentRound 20000, [], hrounds, fun j hj _ => ?_⟩
    have hret : ∀ j : Fin 2, checkResult (pair 0) (silentRound 20000) j = some 0 := by
      decide +kernel
    exact ⟨0, hret ⟨j, Nat.lt_succ_of_le hj⟩, le_refl 0⟩

end JcmController.Heartbeat
