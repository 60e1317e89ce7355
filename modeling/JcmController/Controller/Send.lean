import JcmController.Controller.State

/-!
# The senders (`msg_send`, `mount_msg_send`, `nbd_msg_send`)

The three functions have one loop, `sendLoop`: skip the own entry, `connect` the one socket to the
next server or return 0, then a body of their own. A socket that is connected stays so; what
`connect` does on it then is `Net.reconnect`.

The loop's state is a `Sender`: the globals, whether the socket is connected, `buffer` and `ret`.
-/

namespace JcmController.Controller

open JcmController.Lib

/-- The state of a sender's loop. -/
structure Sender where
  vars : Vars
  connected : Bool
  buffer : Bytes
  ret : Int

/-- Whether `connect` to entry `n` returns 0. -/
def Net.connects (net : Net) (n : Nat) (connected : Bool) : Bool :=
  decide (0 ≤ net.socket) && if connected then net.reconnect n else (net.peer n).reachable

/-- The events of `socket`. -/
def Net.socketEvents (net : Net) : List Event :=
  if 0 ≤ net.socket then [.opened .socket] else []

/-- The event of a read from entry `n` into a buffer of 1024 bytes. -/
def answerEvents (f : SendFn) (n : Nat) : Option Bytes → List Event
  | none => []
  | some bs => [.answer f n (cstr (bs.take 1024))]

/-- The loop over `con_arr`, from its entry `n` on. -/
def sendLoop (c : Setup) (f : SendFn) (net : Net) (body : Nat → Sender → Sender × List Event) :
    List ServerNode → Nat → Sender → Sender × List Event
  | [], _, s => (s, [])
  | node :: nodes, n, s =>
    if node.ip = c.myNode.ip then sendLoop c f net body nodes (n + 1) s
    else if net.connects n s.connected then
      let b := body n { s with connected := true }
      let r := sendLoop c f net body nodes (n + 1) b.1
      (r.1, .connect f n true :: b.2 ++ r.2)
    else ({ s with ret := 0 }, [.connect f n false])

/-- A sender: `socket`, then the loop over `server_config`. -/
def send (c : Setup) (f : SendFn) (net : Net) (body : Nat → Sender → Sender × List Event)
    (v : Vars) : Sender × List Event :=
  let r := sendLoop c f net body c.serverConfig 0 ⟨v, false, net.stack, 0⟩
  (r.1, net.socketEvents ++ r.2)

/-! ## `msg_send` -/

/-- What `open` of `dmbd_config` gives `msg_send` to read; there is no `O_CREAT`. -/
def indexFile (net : Net) (n : Nat) (file : Option Bytes) : Option Bytes :=
  if net.indexOpen n then file else none

/-- `config_index` after the read from `dmbd_config`: a file that could not be opened leaves it as
it was. -/
def configIndex (net : Net) (n : Nat) (file : Option Bytes) : Bytes :=
  readTerm 4096 (net.index n) (indexFile net n file)

/-- The exchange of the configuration, when the first answer asks for it. -/
def configExchange (net : Net) (n : Nat) (v : Vars) (first : Bytes) : List Event :=
  if cstr first = ascii "CONTROL_SET_ON" then
    (if (indexFile net n v.dmbdConfig).isSome then [.opened .index] else []) ++
      [.config n (cstr (configIndex net n v.dmbdConfig) ++ [0])]
  else []

/-- The second answer: `count` and `unsuccess_flag`. -/
def takeVerdict (second : Bytes) (v : Vars) : Vars :=
  if cstr second = ascii "success" then { v with count := v.count + 1 }
  else if cstr second = ascii "unsuccess" then { v with unsuccessFlag := 1 }
  else v

theorem takeVerdict_success {second : Bytes} (h : cstr second = ascii "success") (v : Vars) :
    takeVerdict second v = { v with count := v.count + 1 } := if_pos h

/-- Any other answer leaves `count` as it is. -/
theorem takeVerdict_count {second : Bytes} (h : cstr second ≠ ascii "success") (v : Vars) :
    (takeVerdict second v).count = v.count := by
  unfold takeVerdict
  rw [if_neg h]
  by_cases hu : cstr second = ascii "unsuccess"
  · rw [if_pos hu]
  · rw [if_neg hu]

/-- The loop body of `msg_send`. -/
def msgBody (net : Net) (buf : Bytes) (n : Nat) (s : Sender) : Sender × List Event :=
  let p := net.peer n
  let first := readTerm 1024 s.buffer p.first
  let second := readTerm 1024 first p.second
  (⟨takeVerdict second s.vars, s.connected, second, p.sent⟩,
    .sent .msgSend n buf :: answerEvents .msgSend n p.first ++
      configExchange net n s.vars first ++ answerEvents .msgSend n p.second)

/-- `msg_send(server_config, server_len, buf)` -/
def msgSend (c : Setup) (net : Net) (buf : Bytes) (v : Vars) : Sender × List Event :=
  send c .msgSend net (msgBody net buf) v

/-! ## `mount_msg_send` -/

/-- The loop body of `mount_msg_send`. -/
def mountBody (net : Net) (buf : Bytes) (n : Nat) (s : Sender) : Sender × List Event :=
  ({ s with ret := (net.peer n).sent }, [.sent .mountMsgSend n buf])

/-- `mount_msg_send(server_config, server_len, buf)` -/
def mountMsgSend (c : Setup) (net : Net) (buf : Bytes) (v : Vars) : Sender × List Event :=
  send c .mountMsgSend net (mountBody net buf) v

/-! ## `nbd_msg_send` -/

/-- The answer: `nbd_count`. -/
def takeLoad (answer : Bytes) (v : Vars) : Vars :=
  if cstr answer = ascii "NBD_CLIENT_LOAD" then { v with nbdCount := v.nbdCount + 1 } else v

theorem takeLoad_load {answer : Bytes} (h : cstr answer = ascii "NBD_CLIENT_LOAD") (v : Vars) :
    takeLoad answer v = { v with nbdCount := v.nbdCount + 1 } := if_pos h

/-- The loop body of `nbd_msg_send`. Its read is not followed by a terminator. -/
def nbdBody (net : Net) (buf : Bytes) (n : Nat) (s : Sender) : Sender × List Event :=
  let p := net.peer n
  let answer := readInto 1024 s.buffer p.first
  (⟨takeLoad answer s.vars, s.connected, answer, p.sent⟩,
    .sent .nbdMsgSend n buf :: answerEvents .nbdMsgSend n p.first)

/-- `nbd_msg_send(server_config, server_len, buf)` -/
def nbdMsgSend (c : Setup) (net : Net) (buf : Bytes) (v : Vars) : Sender × List Event :=
  send c .nbdMsgSend net (nbdBody net buf) v

end JcmController.Controller
