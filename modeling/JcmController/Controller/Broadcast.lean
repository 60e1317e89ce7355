import Mathlib.Data.List.Count
import JcmController.Controller.Send

/-!
# What one broadcast reaches

The servers a sender is meant for are the entries whose `ip` is not the own one, `Setup.others`;
`sendLoop` is `visit` over their numbers.

Results:
* `sendLoop_eq_visit`: own entries are skipped wherever they stand.
* `visit_second`: with `connect` failing on a connected socket, the loop serves the first other
  server and ends, by the `return 0`, at the second.
* **`broadcast_complete_iff`**: with every server reachable and answering by the protocol, each of
  the three senders reaches every other server, and counts their answers, exactly when there is at
  most one of them.
-/

namespace JcmController.Controller

open JcmController.Lib

/-! ## The other servers -/

/-- The numbers of the entries of other servers, the list starting at entry `n`. -/
def othersFrom (me : Bytes) : List ServerNode → Nat → List Nat
  | [], _ => []
  | node :: nodes, n =>
    if node.ip = me then othersFrom me nodes (n + 1) else n :: othersFrom me nodes (n + 1)

/-- The other servers of `server_config`. -/
def Setup.others (c : Setup) : List Nat := othersFrom c.myNode.ip c.serverConfig 0

theorem le_of_mem_othersFrom {me : Bytes} {nodes : List ServerNode} {n m : Nat}
    (h : m ∈ othersFrom me nodes n) : n ≤ m := by
  induction nodes generalizing n with
  | nil => exact absurd h List.not_mem_nil
  | cons node nodes ih =>
    unfold othersFrom at h
    by_cases hip : node.ip = me
    · rw [if_pos hip] at h
      exact Nat.le_of_succ_le (ih h)
    · rw [if_neg hip] at h
      rcases List.mem_cons.mp h with rfl | h
      · exact Nat.le_refl _
      · exact Nat.le_of_succ_le (ih h)

/-- They are entries with another `ip`. -/
theorem ip_of_mem_othersFrom {me : Bytes} {nodes : List ServerNode} {n m : Nat}
    (h : m ∈ othersFrom me nodes n) : ∃ node, nodes[m - n]? = some node ∧ node.ip ≠ me := by
  induction nodes generalizing n with
  | nil => exact absurd h List.not_mem_nil
  | cons node nodes ih =>
    have htail : m ∈ othersFrom me nodes (n + 1) →
        ∃ node', (node :: nodes)[m - n]? = some node' ∧ node'.ip ≠ me := by
      intro h
      have hlt := le_of_mem_othersFrom h
      rw [show m - n = m - (n + 1) + 1 by omega, List.getElem?_cons_succ]
      exact ih h
    unfold othersFrom at h
    by_cases hip : node.ip = me
    · rw [if_pos hip] at h
      exact htail h
    · rw [if_neg hip] at h
      rcases List.mem_cons.mp h with rfl | h
      · exact ⟨node, by rw [Nat.sub_self, List.getElem?_cons_zero], hip⟩
      · exact htail h

/-- No entry is named twice. -/
theorem othersFrom_nodup (me : Bytes) (nodes : List ServerNode) (n : Nat) :
    (othersFrom me nodes n).Nodup := by
  induction nodes generalizing n with
  | nil => exact List.nodup_nil
  | cons node nodes ih =>
    unfold othersFrom
    by_cases hip : node.ip = me
    · rw [if_pos hip]
      exact ih (n + 1)
    · rw [if_neg hip, List.nodup_cons]
      constructor
      · intro h
        exact absurd (le_of_mem_othersFrom h) (Nat.not_succ_le_self n)
      · exact ih (n + 1)

theorem othersFrom_length (me : Bytes) (nodes : List ServerNode) (n : Nat) :
    (othersFrom me nodes n).length = nodes.countP fun s => s.ip ≠ me := by
  induction nodes generalizing n with
  | nil => rfl
  | cons node nodes ih =>
    unfold othersFrom
    by_cases hip : node.ip = me
    · rw [if_pos hip, ih (n + 1), List.countP_cons_of_neg (by simp [hip])]
    · rw [if_neg hip, List.length_cons, ih (n + 1), List.countP_cons_of_pos (by simp [hip])]

/-- The own entry is not one of them. -/
theorem others_length_lt (c : Setup) : c.others.length < c.serverConfig.length := by
  rw [Setup.others, othersFrom_length]
  exact List.countP_lt_length_iff.mpr ⟨c.myNode, List.mem_of_find?_eq_some c.found, by simp⟩

/-- A controller alone in its list has no other server. -/
theorem others_eq_nil {c : Setup} (h : ¬ 2 ≤ c.serverLen) : c.others = [] := by
  have hlt := others_length_lt c
  unfold Setup.serverLen at h
  exact List.length_eq_zero_iff.mp (by omega)

/-! ## The loop over them -/

/-- The loop of the senders over the numbers of the other servers. -/
def visit (f : SendFn) (net : Net) (body : Nat → Sender → Sender × List Event) :
    List Nat → Sender → Sender × List Event
  | [], s => (s, [])
  | n :: ns, s =>
    if net.connects n s.connected then
      let b := body n { s with connected := true }
      let r := visit f net body ns b.1
      (r.1, .connect f n true :: b.2 ++ r.2)
    else ({ s with ret := 0 }, [.connect f n false])

theorem sendLoop_eq_visit (c : Setup) (f : SendFn) (net : Net)
    (body : Nat → Sender → Sender × List Event) (nodes : List ServerNode) (n : Nat) (s : Sender) :
    sendLoop c f net body nodes n s = visit f net body (othersFrom c.myNode.ip nodes n) s := by
  induction nodes generalizing n s with
  | nil => rfl
  | cons node nodes ih =>
    unfold sendLoop othersFrom
    by_cases hip : node.ip = c.myNode.ip
    · rw [if_pos hip, if_pos hip]
      exact ih (n + 1) s
    · rw [if_neg hip, if_neg hip, visit]
      simp only [ih (n + 1)]

theorem send_eq_visit (c : Setup) (f : SendFn) (net : Net)
    (body : Nat → Sender → Sender × List Event) (v : Vars) :
    send c f net body v =
      ((visit f net body c.others ⟨v, false, net.stack, 0⟩).1,
        net.socketEvents ++ (visit f net body c.others ⟨v, false, net.stack, 0⟩).2) := by
  unfold send
  rw [sendLoop_eq_visit]
  rfl

section Eisconn

variable {f : SendFn} {net : Net} {body : Nat → Sender → Sender × List Event}

theorem visit_single {n : Nat} {s : Sender} (hn : net.connects n s.connected = true) :
    visit f net body [n] s =
      ((body n { s with connected := true }).1,
        .connect f n true :: (body n { s with connected := true }).2) := by
  simp only [visit, if_pos hn, List.append_nil]

/-- **The second server is never reached** where `connect` fails on a connected socket. -/
theorem visit_second (hbody : ∀ n s, (body n s).1.connected = s.connected) {n m : Nat}
    (hm : net.reconnect m = false) (ns : List Nat) {s : Sender}
    (hn : net.connects n s.connected = true) :
    visit f net body (n :: m :: ns) s =
      ({ (body n { s with connected := true }).1 with ret := 0 },
        .connect f n true :: (body n { s with connected := true }).2 ++ [.connect f m false]) := by
  have hc : (body n { s with connected := true }).1.connected = true := hbody n _
  have hstop : net.connects m (body n { s with connected := true }).1.connected = false := by
    rw [hc]
    simp [Net.connects, hm]
  simp only [visit, if_pos hn, hstop]
  rfl

end Eisconn

/-! ## Deliveries -/

/-- The entries a call of `f` wrote `msg` to. -/
def sentTo (f : SendFn) (msg : Bytes) (events : List Event) : List Nat :=
  events.filterMap fun
    | .sent g n m => if g = f ∧ m = msg then some n else none
    | _ => none

/-- The message went to every other server once and to nobody else. -/
def Delivers (c : Setup) (f : SendFn) (msg : Bytes) (events : List Event) : Prop :=
  ∀ n, (sentTo f msg events).count n = if n ∈ c.others then 1 else 0

/-- Every other server is reachable, and a second `connect` on the socket fails. -/
structure Net.Healthy (net : Net) (c : Setup) : Prop where
  socket : 0 ≤ net.socket
  reachable : ∀ n ∈ c.others, (net.peer n).reachable = true
  eisconn : ∀ n, net.reconnect n = false

theorem Net.Healthy.connects {net : Net} {c : Setup} (h : net.Healthy c) {n : Nat}
    (hn : n ∈ c.others) : net.connects n false = true := by
  simp [Net.connects, h.socket, h.reachable n hn]

theorem sentTo_append (f : SendFn) (msg : Bytes) (es es' : List Event) :
    sentTo f msg (es ++ es') = sentTo f msg es ++ sentTo f msg es' :=
  List.filterMap_append

theorem sentTo_socketEvents (f : SendFn) (msg : Bytes) (net : Net) :
    sentTo f msg net.socketEvents = [] := by
  unfold Net.socketEvents
  by_cases h : 0 ≤ net.socket
  · rw [if_pos h]
    rfl
  · rw [if_neg h]
    rfl

/-- A sender whose body writes its message to the entry it is at delivers it to all exactly when
there is at most one other server. -/
theorem delivers_iff {c : Setup} {f : SendFn} {net : Net} {msg : Bytes}
    {body : Nat → Sender → Sender × List Event} (h : net.Healthy c)
    (hbody : ∀ n s, (body n s).1.connected = s.connected)
    (hsent : ∀ n s, sentTo f msg (body n s).2 = [n]) (v : Vars) :
    Delivers c f msg (send c f net body v).2 ↔ c.others.length ≤ 1 := by
  have hnodup : c.others.Nodup := othersFrom_nodup _ _ _
  unfold Delivers
  rw [send_eq_visit]
  simp only [sentTo_append, sentTo_socketEvents, List.nil_append]
  rcases hc : c.others with _ | ⟨n, _ | ⟨m, ns⟩⟩
  · simp [visit, sentTo]
  · have hn := h.connects (n := n) (by simp [hc])
    rw [visit_single hn]
    refine ⟨fun _ => Nat.le_refl 1, fun _ k => ?_⟩
    have hk : sentTo f msg (.connect f n true :: (body n ⟨v, true, net.stack, 0⟩).2) = [n] :=
      hsent n _
    rw [hk, List.count_singleton]
    by_cases hkn : k = n
    · simp [hkn]
    · simp [hkn, Ne.symm hkn]
  · have hn := h.connects (n := n) (by simp [hc])
    rw [visit_second hbody (h.eisconn m) ns hn]
    refine ⟨fun hd => ?_, fun hlen => absurd hlen (by simp)⟩
    -- the second server gets nothing
    have hm := hd m
    have hk : sentTo f msg (.connect f n true :: (body n ⟨v, true, net.stack, 0⟩).2 ++
        [.connect f m false]) = [n] := by
      rw [sentTo_append]
      exact congrArg (· ++ []) (hsent n _)
    rw [hk] at hm
    have hne : n ≠ m := fun he => by
      rw [hc, he] at hnodup
      exact (List.nodup_cons.mp hnodup).1 List.mem_cons_self
    simp [hne] at hm

/-! ## The three senders -/

theorem msgBody_connected (net : Net) (buf : Bytes) (n : Nat) (s : Sender) :
    (msgBody net buf n s).1.connected = s.connected := rfl

theorem mountBody_connected (net : Net) (buf : Bytes) (n : Nat) (s : Sender) :
    (mountBody net buf n s).1.connected = s.connected := rfl

theorem nbdBody_connected (net : Net) (buf : Bytes) (n : Nat) (s : Sender) :
    (nbdBody net buf n s).1.connected = s.connected := rfl

theorem sentTo_answerEvents (f g : SendFn) (msg : Bytes) (n : Nat) (r : Option Bytes) :
    sentTo f msg (answerEvents g n r) = [] := by
  cases r <;> rfl

theorem sentTo_configExchange (f : SendFn) (msg : Bytes) (net : Net) (n : Nat) (v : Vars)
    (first : Bytes) : sentTo f msg (configExchange net n v first) = [] := by
  unfold configExchange
  by_cases hf : cstr first = ascii "CONTROL_SET_ON"
  · rw [if_pos hf, sentTo_append]
    cases (indexFile net n v.dmbdConfig).isSome <;> rfl
  · rw [if_neg hf]
    rfl

theorem sentTo_msgBody (net : Net) (buf : Bytes) (n : Nat) (s : Sender) :
    sentTo .msgSend buf (msgBody net buf n s).2 = [n] := by
  unfold msgBody
  simp only [sentTo_append, sentTo_answerEvents, sentTo_configExchange, List.append_nil]
  rw [← List.singleton_append, sentTo_append, sentTo_answerEvents]
  simp [sentTo]

theorem sentTo_mountBody (net : Net) (buf : Bytes) (n : Nat) (s : Sender) :
    sentTo .mountMsgSend buf (mountBody net buf n s).2 = [n] := by
  simp [sentTo, mountBody]

theorem sentTo_nbdBody (net : Net) (buf : Bytes) (n : Nat) (s : Sender) :
    sentTo .nbdMsgSend buf (nbdBody net buf n s).2 = [n] := by
  show sentTo .nbdMsgSend buf ([.sent .nbdMsgSend n buf] ++ answerEvents .nbdMsgSend n _) = [n]
  rw [sentTo_append, sentTo_answerEvents]
  simp [sentTo]

/-- A string sent with its NUL, as a peer sends its answers. -/
def nulTerminated (s : String) : Bytes := ascii s ++ [0]

/-- Every other server answers `msg_send` by the protocol. -/
def MsgAnswers (c : Setup) (net : Net) : Prop :=
  ∀ n ∈ c.others, (net.peer n).first = some (nulTerminated "CONTROL_SET_ON") ∧
    ((net.peer n).second = some (nulTerminated "success") ∨
      (net.peer n).second = some (nulTerminated "unsuccess"))

/-- Every other server answers `nbd_msg_send` by the protocol. -/
def NbdAnswers (c : Setup) (net : Net) : Prop :=
  ∀ n ∈ c.others, (net.peer n).first = some (nulTerminated "NBD_CLIENT_LOAD")

/-- The other servers that answer "success". -/
def successes (c : Setup) (net : Net) : Nat :=
  c.others.countP fun n => (net.peer n).second = some (nulTerminated "success")

/-- The other servers that answer "NBD_CLIENT_LOAD". -/
def loads (c : Setup) (net : Net) : Nat :=
  c.others.countP fun n => (net.peer n).first = some (nulTerminated "NBD_CLIENT_LOAD")

/-- One call of `msg_send` is complete: its deliveries, and `count`. -/
def MsgComplete (c : Setup) (net : Net) (buf : Bytes) (v : Vars) : Prop :=
  Delivers c .msgSend buf (msgSend c net buf v).2 ∧
    (msgSend c net buf v).1.vars.count = v.count + successes c net

/-- One call of `mount_msg_send` is complete. -/
def MountComplete (c : Setup) (net : Net) (buf : Bytes) (v : Vars) : Prop :=
  Delivers c .mountMsgSend buf (mountMsgSend c net buf v).2

/-- One call of `nbd_msg_send` is complete: its deliveries, and `nbd_count`. -/
def NbdComplete (c : Setup) (net : Net) (buf : Bytes) (v : Vars) : Prop :=
  Delivers c .nbdMsgSend buf (nbdMsgSend c net buf v).2 ∧
    (nbdMsgSend c net buf v).1.vars.nbdCount = v.nbdCount + loads c net

theorem cstr_readTerm_nulTerminated (buf : Bytes) (s : String) (hs : NulFree (ascii s))
    (hlen : (ascii s).length < 1024) :
    cstr (readTerm 1024 buf (some (nulTerminated s))) = ascii s := by
  have htake : (nulTerminated s).take 1024 = nulTerminated s := by
    refine List.take_of_length_le ?_
    rw [nulTerminated, List.length_append]
    exact hlen
  rw [cstr_readTerm_some, htake]
  exact cstr_append_zero hs

/-- What the second answer adds to `count`, by the protocol. -/
theorem msgBody_count {net : Net} {n : Nat} (buf : Bytes) (s : Sender)
    (hn : (net.peer n).second = some (nulTerminated "success") ∨
      (net.peer n).second = some (nulTerminated "unsuccess")) :
    (msgBody net buf n s).1.vars.count =
      s.vars.count + if (net.peer n).second = some (nulTerminated "success") then 1 else 0 := by
  unfold msgBody
  rcases hn with hn | hn
  · have hc := cstr_readTerm_nulTerminated (readTerm 1024 s.buffer (net.peer n).first) "success"
      (by decide +kernel) (by decide)
    simp only [hn, takeVerdict_success hc, if_pos]
  · have hc := cstr_readTerm_nulTerminated (readTerm 1024 s.buffer (net.peer n).first) "unsuccess"
      (by decide +kernel) (by decide)
    have hne : ascii "unsuccess" ≠ ascii "success" := by decide
    have hne' : some (nulTerminated "unsuccess") ≠ some (nulTerminated "success") := by decide
    simp only [hn, takeVerdict_count (hc.trans_ne hne), if_neg hne', Int.add_zero]

theorem nbdBody_nbdCount {net : Net} {n : Nat} (buf : Bytes) (s : Sender)
    (hn : (net.peer n).first = some (nulTerminated "NBD_CLIENT_LOAD")) :
    (nbdBody net buf n s).1.vars.nbdCount = s.vars.nbdCount + 1 := by
  have hc : cstr (readInto 1024 s.buffer (some (nulTerminated "NBD_CLIENT_LOAD"))) =
      ascii "NBD_CLIENT_LOAD" := by
    have hover : readInto 1024 s.buffer (some (nulTerminated "NBD_CLIENT_LOAD")) =
        ascii "NBD_CLIENT_LOAD" ++ 0 :: s.buffer.drop 16 := rfl
    rw [hover]
    exact cstr_append_zero_cons (by decide +kernel) _
  unfold nbdBody
  simp only [hn, takeLoad_load hc]

/-- **A broadcast is complete exactly when there is at most one other server**, for each of the
three senders, any list of servers and any own position in it. -/
theorem broadcast_complete_iff (c : Setup) (net : Net) (buf : Bytes) (v : Vars)
    (h : net.Healthy c) :
    (MsgAnswers c net → (MsgComplete c net buf v ↔ c.others.length ≤ 1)) ∧
      (MountComplete c net buf v ↔ c.others.length ≤ 1) ∧
      (NbdAnswers c net → (NbdComplete c net buf v ↔ c.others.length ≤ 1)) := by
  have hmsg := delivers_iff h (msgBody_connected net buf) (sentTo_msgBody net buf) v
  have hmount :=
    delivers_iff h (mountBody_connected net buf) (sentTo_mountBody net buf) v
  have hnbd := delivers_iff h (nbdBody_connected net buf) (sentTo_nbdBody net buf) v
  refine ⟨fun ha => ⟨fun hc => hmsg.mp hc.1, fun hlen => ⟨hmsg.mpr hlen, ?_⟩⟩, hmount,
    fun ha => ⟨fun hc => hnbd.mp hc.1, fun hlen => ⟨hnbd.mpr hlen, ?_⟩⟩⟩
  · unfold msgSend successes
    rw [send_eq_visit]
    rcases hc : c.others with _ | ⟨n, _ | ⟨m, ns⟩⟩
    · simp [visit]
    · have hn : n ∈ c.others := by simp [hc]
      rw [visit_single (h.connects hn), msgBody_count buf _ (ha n hn).2]
      simp [List.countP_cons]
    · rw [hc] at hlen
      exact absurd hlen (by simp)
  · unfold nbdMsgSend loads
    rw [send_eq_visit]
    rcases hc : c.others with _ | ⟨n, _ | ⟨m, ns⟩⟩
    · simp [visit]
    · have hn : n ∈ c.others := by simp [hc]
      rw [visit_single (h.connects hn), nbdBody_nbdCount buf _ (ha n hn)]
      simp [ha n hn]
    · rw [hc] at hlen
      exact absurd hlen (by simp)

/-! ## Two and three servers -/

/-- A controller at the first of these addresses. -/
def setupOf (jc : JsonC) (me : Bytes) (rest : List Bytes) : Setup where
  json := jc
  serverConfig := ⟨me⟩ :: rest.map ServerNode.mk
  ip := me
  configCmd := ascii "/etc/jcm"
  servSock := 3
  junk := some
  myNode := ⟨me⟩
  found := by simp [checkMyNode]

/-- The state a controller starts in, with this `dmbd_config`. -/
def startVars (file : Option Bytes) : Vars where
  count := 0
  nbdCount := 0
  successFlag := 0
  unsuccessFlag := 0
  clientSock := 0
  fsStatus := {3}
  maxfd := 3
  buffer := List.replicate 4096 0
  bestioCmd := []
  dmbdConfig := file
  nbdConfig := none
  mountFile := none
  running := true

/-- Every server is reachable and gives these answers. -/
def answering (first second : String) : Net where
  socket := 5
  reconnect := fun _ => false
  stack := []
  indexOpen := fun _ => true
  index := fun _ => []
  peer := fun _ => ⟨true, 0, some (nulTerminated first), some (nulTerminated second)⟩

theorem answering_healthy (c : Setup) (first second : String) :
    (answering first second).Healthy c :=
  ⟨Int.natCast_nonneg 5, fun _ _ => rfl, fun _ => rfl⟩

/-- json-c that finds no document in any text. -/
def noJson : JsonC := ⟨fun _ => none, fun _ => [], fun _ => 0⟩

/-- A controller and one other server. -/
def twoServers (jc : JsonC) : Setup := setupOf jc (ascii "10.0.0.1") [ascii "10.0.0.2"]

/-- A controller and two other servers. -/
def threeServers (jc : JsonC) : Setup :=
  setupOf jc (ascii "10.0.0.1") [ascii "10.0.0.2", ascii "10.0.0.3"]

/-- Both answers to `msg_send` are the protocol's. -/
def msgOk : Net := answering "CONTROL_SET_ON" "success"

/-- The answer to `nbd_msg_send` is the protocol's. -/
def nbdOk : Net := answering "NBD_CLIENT_LOAD" ""

theorem msgAnswers_msgOk (c : Setup) : MsgAnswers c msgOk := fun _ _ => ⟨rfl, Or.inl rfl⟩

theorem nbdAnswers_nbdOk (c : Setup) : NbdAnswers c nbdOk := fun _ _ => rfl

/-- Of two other servers that both answer, no sender reaches the second. -/
theorem three_servers_not_complete :
    msgOk.Healthy (threeServers noJson) ∧ MsgAnswers (threeServers noJson) msgOk ∧
      nbdOk.Healthy (threeServers noJson) ∧ NbdAnswers (threeServers noJson) nbdOk ∧
      ¬ MsgComplete (threeServers noJson) msgOk controllerCmd (startVars none) ∧
      ¬ MountComplete (threeServers noJson) msgOk (mountCmd (ascii "10.0.0.1")) (startVars none) ∧
      ¬ NbdComplete (threeServers noJson) nbdOk nbdClientMsg (startVars none) := by
  refine ⟨answering_healthy _ _ _, msgAnswers_msgOk _, answering_healthy _ _ _,
    nbdAnswers_nbdOk _, fun hc => ?_, fun hc => ?_, fun hc => ?_⟩
  · exact absurd (hc.1 2) (by decide)
  · exact absurd (hc 2) (by decide)
  · exact absurd (hc.1 2) (by decide)

/-- With one other server the three broadcasts are complete. -/
theorem broadcast_complete_two :
    MsgComplete (twoServers noJson) msgOk controllerCmd (startVars none) ∧
      MountComplete (twoServers noJson) msgOk (mountCmd (ascii "10.0.0.1")) (startVars none) ∧
      NbdComplete (twoServers noJson) nbdOk nbdClientMsg (startVars none) :=
  ⟨((broadcast_complete_iff _ _ _ _ (answering_healthy _ _ _)).1 (msgAnswers_msgOk _)).mpr
      (by decide),
    (broadcast_complete_iff _ _ _ _ (answering_healthy _ _ _)).2.1.mpr (by decide),
    ((broadcast_complete_iff _ _ _ _ (answering_healthy _ _ _)).2.2 (nbdAnswers_nbdOk _)).mpr
      (by decide)⟩

end JcmController.Controller
