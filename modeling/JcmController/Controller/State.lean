import Mathlib.Data.Finset.Basic
import JcmController.Controller.Json
import JcmController.Lib.Machine

/-!
# The controller process (`jcm_controller.c`): its data

* `Setup` is what `main` fixes before its loop, `Vars` what the loop changes: the globals,
  the locals of `main` that outlive one message, and the files of the configuration directory
  (`none` is a file that does not exist). Counters are `Int`; they do not reach `INT_MAX`.
* Of a `server_node` only `ip` is used here: `controller_port` decides where `connect` goes, and
  the entry's number stands for that address.
* `Outcomes` is everything a message's handling learns from outside: results of `system`, of the
  file calls, and one `Net` for each of the three senders.
* `Event` lists what others can see of it.
* The texts fit their 1024-byte buffers.
-/

namespace JcmController.Controller

open JcmController.Lib

/-! ## What `main` sets up -/

/-- `server_node` -/
structure ServerNode where
  ip : Bytes

/-- `check_my_node`. It returns nothing useful (no `return` at its end) when no entry matches. -/
def checkMyNode (serv : List ServerNode) (myIp : Bytes) : Option ServerNode :=
  serv.find? fun s => s.ip = myIp

/-- What a started controller knows: `argv[1]` is `ip` and has an entry, `argv[2]` is `configCmd`.
`junk` is what `fprintf` makes of a format from its first conversion on, having no argument for
it: `none` if the conversion ends the process, as `%s` of a stray pointer does. -/
structure Setup where
  json : JsonC
  serverConfig : List ServerNode
  ip : Bytes
  configCmd : Bytes
  servSock : Int
  junk : Bytes → Option Bytes
  myNode : ServerNode
  found : checkMyNode serverConfig ip = some myNode

/-- `my_node` is the entry of `argv[1]`. -/
theorem Setup.myNode_ip (c : Setup) : c.myNode.ip = c.ip := by
  have hfound := c.found
  unfold checkMyNode at hfound
  simpa using List.find?_some hfound

/-- `server_len` -/
def Setup.serverLen (c : Setup) : Int := c.serverConfig.length

/-- What the loop changes. `running` ends with the process. -/
structure Vars where
  count : Int
  nbdCount : Int
  successFlag : Int
  unsuccessFlag : Int
  clientSock : Int
  fsStatus : Finset Int
  maxfd : Int
  buffer : Bytes
  bestioCmd : Bytes
  dmbdConfig : Option Bytes
  nbdConfig : Option Bytes
  mountFile : Option Bytes
  running : Bool

/-- The state in which the loop starts. The buffers hold anything. -/
structure Vars.Start (c : Setup) (v : Vars) : Prop where
  count : v.count = 0
  nbdCount : v.nbdCount = 0
  successFlag : v.successFlag = 0
  unsuccessFlag : v.unsuccessFlag = 0
  clientSock : v.clientSock = 0
  fsStatus : v.fsStatus = {c.servSock}
  maxfd : v.maxfd = c.servSock
  buffer : v.buffer.length = 4096
  running : v.running = true

/-! ## What it learns from outside -/

/-- The server of one entry, as a sender meets it. `sent` is the result of writing the message to
it; `first` and `second` are what the two reads return, `none` a failed one. `nbd_msg_send` reads
once. -/
structure Peer where
  reachable : Bool
  sent : Int
  first : Option Bytes
  second : Option Bytes

/-- What one call of a sender meets. `reconnect` is the result of `connect` on a socket that is
already connected, `indexOpen` whether `msg_send` can open a `dmbd_config` that exists. `stack` and
`index` are the bytes found in `buffer` and `config_index`, which are not initialised. -/
structure Net where
  socket : Int
  reconnect : Nat → Bool
  stack : Bytes
  indexOpen : Nat → Bool
  index : Nat → Bytes
  peer : Nat → Peer

/-- Everything the handling of one message learns from outside. The functions of a `Nat` are
asked at an entry of `dmbd_config`; `configWritten` bounds what `write` takes of the text. -/
structure Outcomes where
  configOpen : Bool
  configWritten : Nat
  configInsmod : Int
  nbdFopen : Nat → Bool
  nbdServer : Nat → Int
  activation : Nat → Int
  vrdInsmod : Int
  access : Int
  mkdir : Int
  mount : Int
  mountFopen : Bool
  msgNet : Net
  mountNet : Net
  nbdNet : Net

/-! ## What others see -/

/-- Where a descriptor comes from: the `socket` of a sender, the `open` of `msg_send`, the three
files `main` opens, a connection. -/
inductive Desc where
  | socket
  | index
  | config
  | nbdConfig
  | mountFile
  | conn (fd : Int)
  deriving DecidableEq, Repr

/-- The calls of `system`: two in the configuration handler, three in the activation. -/
inductive Site where
  | configInsmod
  | nbdServer
  | goInsmod
  | nbdClient
  | vrdInsmod
  deriving DecidableEq, Repr

/-- The three senders. -/
inductive SendFn where
  | msgSend
  | mountMsgSend
  | nbdMsgSend
  deriving DecidableEq, Repr

/-- What others see. The number in the first four is the entry of `server_config` that a sender is
at: its `connect`, its writes of the message and of the configuration, a read that returned. -/
inductive Event where
  | connect (f : SendFn) (n : Nat) (ok : Bool)
  | sent (f : SendFn) (n : Nat) (msg : Bytes)
  | config (n : Nat) (msg : Bytes)
  | answer (f : SendFn) (n : Nat) (text : Bytes)
  | message (i : Int) (text : Bytes)
  | reply (i : Int) (msg : Bytes)
  | verdict (fd : Int) (msg : Bytes)
  | launch (site : Site) (cmd : Bytes) (ret : Int)
  | mkdir (path : Option Bytes) (ret : Int)
  | mount (dev : Bytes) (path fs : Option Bytes) (ret : Int)
  | opened (d : Desc)
  | closed (d : Desc)
  deriving DecidableEq

/-! ## Texts -/

/-- `JCM_DEV` -/
def JCM_DEV : Bytes := ascii "bestioa"

/-- `%lu` -/
def ulong (n : UInt64) : Bytes := ascii (Nat.repr n.toNat)

/-- `%s` of a string that may be NULL. -/
def percentS (s : Option Bytes) : Bytes := s.getD (ascii "(null)")

/-- `fprintf(file, msg)`: the text is the format. -/
def fprintf (junk : Bytes → Option Bytes) : Bytes → Option Bytes
  | [] => some []
  | 37 :: 37 :: rest => (fprintf junk rest).map (37 :: ·)
  | 37 :: rest => junk rest
  | b :: rest => (fprintf junk rest).map (b :: ·)

/-- Text without a conversion is its own format. -/
theorem fprintf_plain {junk : Bytes → Option Bytes} {s : Bytes} (h : 37 ∉ s) :
    fprintf junk s = some s := by
  induction s with
  | nil => rfl
  | cons b s ih =>
    have hb : b ≠ 37 := fun hb => h (hb ▸ List.mem_cons_self)
    have hs := ih fun hs => h (List.mem_cons_of_mem b hs)
    unfold fprintf
    split
    · cases ‹_ = _›
    · exact absurd (List.cons.inj ‹_›).1 hb
    · exact absurd (List.cons.inj ‹_›).1 hb
    · rename_i heq
      obtain ⟨rfl, rfl⟩ := List.cons.inj heq
      rw [hs]
      rfl

/-- Where every conversion prints something the process lives on. -/
theorem fprintf_isSome {junk : Bytes → Option Bytes} (h : ∀ t, (junk t).isSome) (s : Bytes) :
    (fprintf junk s).isSome := by
  fun_induction fprintf junk s with
  | case1 => rfl
  | case2 rest ih => rwa [Option.isSome_map]
  | case3 rest => exact h rest
  | case4 b rest _ hb ih => rwa [Option.isSome_map]

/-- A conversion that prints nothing makes the text shorter. -/
theorem fprintf_shorter (s : Bytes) :
    ∃ t, fprintf (fun _ => some []) s = some t ∧ t.length ≤ s.length ∧
      (37 ∈ s → t.length < s.length) := by
  fun_induction fprintf (fun _ => some []) s with
  | case1 => exact ⟨[], rfl, Nat.le_refl 0, fun h => absurd h List.not_mem_nil⟩
  | case2 rest ih =>
    obtain ⟨t, ht, hle, _⟩ := ih
    refine ⟨37 :: t, by rw [ht]; rfl, ?_, fun _ => ?_⟩
    · simp only [List.length_cons]
      omega
    · simp only [List.length_cons]
      omega
  | case3 rest => exact ⟨[], rfl, Nat.zero_le _, fun _ => Nat.succ_pos _⟩
  | case4 b rest _ hb ih =>
    obtain ⟨t, ht, hle, hlt⟩ := ih
    refine ⟨b :: t, by rw [ht]; rfl, Nat.succ_le_succ hle, fun h => ?_⟩
    rcases List.mem_cons.mp h with rfl | h
    · exact (hb rfl).elim
    · exact Nat.succ_lt_succ (hlt h)

/-- **A text is written as it is**, whatever a conversion does, if it has none. -/
theorem fprintf_eq_self_iff {s : Bytes} : (∀ junk, fprintf junk s = some s) ↔ 37 ∉ s := by
  refine ⟨fun h hmem => ?_, fun h _ => fprintf_plain h⟩
  obtain ⟨t, ht, _, hlt⟩ := fprintf_shorter s
  rw [h] at ht
  cases ht
  exact Nat.lt_irrefl _ (hlt hmem)

/-- `controller_cmd` -/
def controllerCmd : Bytes := ascii "\x7b \"cmd_type\": \"CONTROLLER_SET_CONFIG\"\x7d"

/-- `nbd_client_msg` -/
def nbdClientMsg : Bytes := ascii "\x7b \"cmd_type\": \"NBD_SET_ON\"\x7d"

/-- `mount_cmd` -/
def mountCmd (ip : Bytes) : Bytes :=
  ascii "\x7b \"cmd_type\": \"MOUNT_SET_ON\", \"mount_ip\": \"" ++ ip ++ ascii "\"\x7d"

/-- `mount_msg` -/
def mountMsg (ip : Option Bytes) : Bytes := ascii "mount_ip is = " ++ percentS ip ++ ascii "\n"

/-- `bestio_cmd` -/
def bestioCmd (c : Setup) (r : DmbdConfigRemote) : Bytes :=
  ascii "insmod " ++ c.configCmd ++ ascii "/bestio/go.ko memory_size=" ++ ulong r.devSize ++
    ascii " back_major=8 back_minor=32"

/-- `nbd_server_cmd` -/
def nbdServerCmd (c : Setup) : Bytes :=
  ascii "nbd-server -C " ++ c.configCmd ++ ascii "/nbd_config"

/-- `nbd_msg` of the configuration handler. -/
def nbdConfigMsg (rs : List DmbdConfigRemote) : Bytes :=
  ascii "[generic]\n    listenaddr=" ++ ipOf rs ++ ascii "\n    port=" ++ nbdPortOf rs ++
    ascii "\n[" ++ nbdExportOf rs ++ ascii "]\n    exportname = /dev/" ++ JCM_DEV

/-- `nbd_msg` of the activation. -/
def nbdClientCmd (rs : List DmbdConfigRemote) : Bytes :=
  ascii "nbd-client " ++ ipOf rs ++ ascii " " ++ nbdPortOf rs ++ ascii " -p " ++ devNameOf rs ++
    ascii " -N " ++ nbdExportOf rs

/-- `module_cmd` -/
def moduleCmd : Bytes := ascii "insmod /root/jcm_controller/vrd_2018_04_18.ko"

end JcmController.Controller
