import Mathlib.Algebra.Order.Group.Unbundled.Int
import JcmController.Heartbeat.Ping
import JcmController.Lib.Assoc
import JcmController.Lib.Machine

/-!
# The heartbeat (`dmbd_hb.c`)

`hbStart` writes `hb_state`, `hbSend` is what the sender thread repeats, `hbReceive` what the
receiver thread repeats. A run of the receiver is a list of rounds.

* `hb_state` is kept as the object it holds: json-c reads back the object it printed. The text is
  the format of `fprintf`, which prints it as it is where no configured ip has a `%` in it
  (`Host.Plain`, `hb_state_plain`).
* A `server_node` has what the heartbeat uses. `teng_ip`, `hb_time` and `disconnect` are not set by
  `ReadServerConfig`: a `teng_ip` that points to no string is `none`.
* `Round` is everything a round learns from outside. The functions of a `Nat` are asked at an entry
  of `server_config`. `recvfrom` and `json_object_from_file` can fail, `open` and `fopen` too.
* The exit of a visit is `.cont` for `break`. It is `.crash` where the round does not come to an
  end: a NULL string in `strcmp`, a NULL file in `fprintf`, or a ping that has not returned.
* `abs` takes an `int`: where the quotient does not fit one, `Host.wild` says what becomes of it.
-/

namespace JcmController.Heartbeat

open JcmController.Lib

/-! ## Data -/

/-- `CONNECT` -/
def CONNECT : Int := 0

/-- `DISCONNECT` -/
def DISCONNECT : Int := 1

/-- `BUF_SIZE` -/
def BUF_SIZE : Nat := 1024

/-- `IP_SIZE` -/
def IP_SIZE : Nat := 16

/-- `bounds` -/
def bounds : Int := 1000

/-- `server_node` -/
structure ServerNode where
  ip : Bytes
  hbPort : Bytes
  gateway : Option Bytes
  tengIp : Option Bytes
  hbTime : Int
  disconnect : Int
  deriving DecidableEq

/-- The object in `hb_state`: a status for each ip. -/
abbrev HbState := Assoc Bytes Bytes

/-- What is fixed before the threads start. `my_node` points into `server_config`. -/
structure Host where
  proc : Process
  serverConfig : List ServerNode
  myNode : ServerNode
  found : myNode ∈ serverConfig
  wild : Int → Bool

/-- What the rounds change. `running` ends with the process. -/
structure Hb where
  nodes : List ServerNode
  hbState : Option HbState
  running : Bool

/-- What a round of the receiver learns from outside: its `clock()`, the datagram, the file, the
`clock()` of the first loop, and of the second the gateway check, `open` and `fopen`. -/
structure Round where
  hbC : Int
  datagram : Option Bytes
  readOk : Bool
  clock : Nat → Int
  check : Nat → Check
  ioctlFd : Nat → Int
  fopen : Nat → Bool

/-- What a round of the sender learns from outside. -/
structure SendRound where
  socket : Int
  sendto : Nat → Int

/-- Where a descriptor comes from. The socket of `nu_pinger` has its own event. -/
inductive Desc where
  | sendSocket
  | ioctl
  | hbState
  deriving DecidableEq, Repr

/-- What others see. The number is the entry of `server_config` that the round is at. -/
inductive Event where
  | ping (n : Nat) (e : PingEvent)
  | hbDown (n : Nat) (fd : Int) (addr : Bytes)
  | wrote (st : HbState)
  | sent (n : Nat) (addr : UInt32) (port : Nat) (msg : Bytes) (ret : Int)
  | opened (d : Desc)
  | closed (d : Desc)

/-! ## `hb_send` -/

/-- The loop of `hb_send` from entry `i` on. -/
def hbSendLoop (h : Host) (o : SendRound) :
    List ServerNode → Nat → Int → Int × List Event
  | [], _, ret => (ret, [])
  | node :: nodes, i, ret =>
    if node.ip = h.myNode.ip then hbSendLoop h o nodes (i + 1) ret
    else
      let r := hbSendLoop h o nodes (i + 1) (o.sendto i)
      (r.1, .sent i (h.proc.inetAddr node.ip) (ushort (h.proc.atoi node.hbPort)) h.myNode.ip
        (o.sendto i) :: r.2)

/-- `hb_send` -/
def hbSend (h : Host) (o : SendRound) (nodes : List ServerNode) : Int × List Event :=
  if o.socket < 0 then (-1, [])
  else
    let r := hbSendLoop h o nodes 0 0
    (r.1, .opened .sendSocket :: r.2 ++ [.closed .sendSocket])

/-! ## `hb_receive` -/

/-- `recv_data`: at most `IP_SIZE` bytes in a zeroed buffer. -/
def Round.recvData (R : Round) : Bytes :=
  cstr (readInto IP_SIZE (List.replicate BUF_SIZE 0) R.datagram)

/-- One turn of the first loop. `disconnect_flag` is `DISCONNECT` as long as it runs, so no entry
is passed over for it. -/
def hearNode (h : Host) (R : Round) (i : Nat) (node : ServerNode) : ServerNode :=
  if node.ip = h.myNode.ip then node
  else if node.ip = R.recvData then { node with hbTime := R.clock i }
  else node

/-- The first loop, from entry `i` on. -/
def hear (h : Host) (R : Round) : List ServerNode → Nat → List ServerNode
  | [], _ => []
  | node :: nodes, i => hearNode h R i node :: hear h R nodes (i + 1)

/-- `diff > bounds/100` -/
def silent (wild : Int → Bool) (hbC hbTime : Int) : Bool :=
  let q := (hbC - hbTime).tdiv 1000
  if -2 ^ 31 < q ∧ q < 2 ^ 31 then decide (bounds < 100 * |q|) else wild (hbC - hbTime)

/-- `node`, the object a round works on, and the file. -/
structure Files where
  obj : Option HbState
  file : Option HbState

/-- `fopen`, `fprintf` of the object and `fclose`, at the end of both branches. -/
def rewrite (R : Round) (i : Nat) (node : ServerNode) (st : HbState) (l : Files) :
    Done (ServerNode × Files) Event :=
  if R.fopen i then
    .ok (node, ⟨some st, some st⟩) [.opened .hbState, .wrote st, .closed .hbState]
  else ⟨(node, { l with obj := some st }), [], .crash⟩

/-- `json_object_object_get_ex` of the entry, and `strcmp` with its string. -/
def withEntry (node : ServerNode) (l : Files)
    (f : HbState → Bytes → Done (ServerNode × Files) Event) : Done (ServerNode × Files) Event :=
  match l.obj with
  | none => ⟨(node, l), [], .crash⟩
  | some st =>
    match st.get? node.ip with
    | none => ⟨(node, l), [], .crash⟩
    | some entry => f st entry

/-- The entry is taken out and put in again, at the end. -/
def setState (st : HbState) (ip status : Bytes) : HbState := (st.del ip).add ip status

/-- `open`, `strcmp` of `teng_ip`, `ioctl`, `close`. -/
def notify (R : Round) (i : Nat) (node : ServerNode) (l : Files) :
    Done (ServerNode × Files) Event :=
  let opened := if 0 ≤ R.ioctlFd i then [Event.opened .ioctl] else []
  match node.tengIp with
  | none => ⟨(node, l), opened, .crash⟩
  | some teng =>
    let addr := if teng = ascii "NULL" then node.ip else teng
    .ok (node, l) (opened ++ [.hbDown i (R.ioctlFd i) addr] ++
      if 0 ≤ R.ioctlFd i then [.closed .ioctl] else [])

/-- The silent branch after the ping. -/
def markDown (R : Round) (i : Nat) (node : ServerNode) (l : Files) :
    Done (ServerNode × Files) Event :=
  let node := { node with disconnect := DISCONNECT }
  withEntry node l fun st entry =>
    if entry = ascii "connect" then
      (notify R i node l).andThen fun s =>
        rewrite R i s.1 (setState st node.ip (ascii "disconnect")) s.2
    else .ok (node, l) []

/-- The alive branch. -/
def markUp (R : Round) (i : Nat) (node : ServerNode) (l : Files) :
    Done (ServerNode × Files) Event :=
  if node.disconnect = DISCONNECT then
    let node := { node with disconnect := CONNECT }
    withEntry node l fun st entry =>
      if entry = ascii "disconnect" then
        rewrite R i node (setState st node.ip (ascii "connect")) l
      else .ok (node, l) []
  else .ok (node, l) []

/-- `0 > nu_pinger(my_node->gateway, 10, 0, 0)` and its `break`. -/
def gatewayCheck (h : Host) (R : Round) (i : Nat) (node : ServerNode) (l : Files) :
    Done (ServerNode × Files) Event :=
  let p := nuPinger h.proc h.myNode.gateway 10 0 (R.check i)
  ⟨(node, l), p.2.map (Event.ping i),
    match p.1 with
    | none => .crash
    | some ret => if 0 > ret then .cont else .go⟩

/-- One turn of the second loop. -/
def visit (h : Host) (R : Round) (i : Nat) (node : ServerNode) (l : Files) :
    Done (ServerNode × Files) Event :=
  if node.ip = h.myNode.ip then .ok (node, l) []
  else if silent h.wild R.hbC node.hbTime then
    (gatewayCheck h R i node l).andThen fun s => markDown R i s.1 s.2
  else markUp R i node l

/-- The second loop, from entry `i` on. -/
def visitLoop (h : Host) (R : Round) :
    List ServerNode → Nat → Files → Done (List ServerNode × Files) Event
  | [], _, l => .ok ([], l) []
  | node :: nodes, i, l =>
    let b := visit h R i node l
    if b.exit = .go then
      let r := visitLoop h R nodes (i + 1) b.state.2
      ⟨(b.state.1 :: r.state.1, r.state.2), b.events ++ r.events, r.exit⟩
    else ⟨(b.state.1 :: nodes, b.state.2), b.events, b.exit⟩

/-- `hb_receive` -/
def hbReceive (h : Host) (R : Round) (s : Hb) : Hb × List Event :=
  let r := visitLoop h R (hear h R s.nodes 0) 0
    ⟨if R.readOk then s.hbState else none, s.hbState⟩
  (⟨r.state.1, r.state.2.file, decide (r.exit ≠ .crash)⟩, r.events)

/-- A round of the receiver: nothing happens once the process has ended. -/
def step (h : Host) (s : Hb) (R : Round) : Hb × List Event :=
  if s.running then hbReceive h R s else (s, [])

/-! ## `hb_start` -/

/-- The loop of `hb_start` from entry `i` on, with the object so far and the file. -/
def hbStartLoop (fopen : Nat → Bool) :
    List ServerNode → Nat → HbState → Option HbState → Done (Option HbState) Event
  | [], _, _, file => .ok file []
  | node :: nodes, i, obj, file =>
    let obj := obj.add node.ip (ascii "connect")
    if fopen i then
      (Done.ok (some obj) [Event.opened .hbState, .wrote obj, .closed .hbState]).andThen
        (hbStartLoop fopen nodes (i + 1) obj)
    else ⟨file, [], .crash⟩

/-- `hb_start`, over what the file held before. -/
def hbStart (h : Host) (fopen : Nat → Bool) (before : Option HbState) :
    Done (Option HbState) Event :=
  hbStartLoop fopen h.serverConfig 0 Assoc.empty before

/-- The state in which the receiver starts, `hb_start` having written its file. -/
def started (h : Host) (before : Option HbState) : Hb :=
  ⟨h.serverConfig, (hbStart h (fun _ => true) before).state, true⟩

end JcmController.Heartbeat
