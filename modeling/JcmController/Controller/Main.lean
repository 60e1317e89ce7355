import JcmController.Controller.Send

/-!
# The main loop (`main`)

`serve` is what the loop does with one ready descriptor: it accepts a connection, or reads from
one and handles what it read. `select`, and with it the order of the descriptors, is left to the
inputs: a run is any sequence of them.

* A handler is a `Done`: `.cont` is a `continue`, `.crash` a signal (a NULL pointer given to
  `memcpy` or `fprintf`, a conversion of `fprintf` without its argument, or the assertion of
  `json_object_array_length`).
* The handlers of the seven kinds of message (`Command`) are followed by the three `if` statements
  at the end of the loop body, `countGate`, `nbdGate` and `unsuccessGate`.
* `open` of `dmbd_config` and the two calls of `fopen` can fail, and `write` to `dmbd_config` can
  be short; writes to connections are not. Every call returns; what follows where a read from
  another server never does, or a `write` raises `SIGPIPE`, is in `Stalls`.
-/

namespace JcmController.Controller

open JcmController.Lib

/-! ## Handlers -/

/-- What a message asks for. -/
inductive Command where
  | setConfig
  | userSetConfig
  | controllerSetConfig
  | mount
  | mountSetOn
  | nbdSetOn
  | unknown
  deriving DecidableEq, Repr

/-- The `cmd_command` chain, on the text in `buffer`. -/
def commandOf (c : Setup) (text : Bytes) : Command :=
  match c.json.getString (objectGetEx (c.json.tokenerParse text) (ascii "cmd_type")) with
  | none => .setConfig
  | some cmd =>
    if cmd = ascii "USER_SET_CONFIG" then .userSetConfig
    else if cmd = ascii "CONTROLLER_SET_CONFIG" then .controllerSetConfig
    else if cmd = ascii "mount" then .mount
    else if cmd = ascii "MOUNT_SET_ON" then .mountSetOn
    else if cmd = ascii "NBD_SET_ON" then .nbdSetOn
    else .unknown

/-- The new contents of `dmbd_config`: `O_TRUNC`, then one `write`. -/
def writeConfig (o : Outcomes) (v : Vars) : Done Vars Event :=
  if o.configOpen then
    .ok { v with dmbdConfig := some ((cstr v.buffer).take o.configWritten) } [.opened .config]
  else .ok v []

/-- `fopen` of a file that it empties, `fprintf` of `msg` and `fclose`; `put` is what the file then
holds. What `fprintf` has printed when it ends the process was not written yet. -/
def printFile (c : Setup) (d : Desc) (opens : Bool) (msg : Bytes) (put : Bytes → Vars) (v : Vars) :
    Done Vars Event :=
  if opens then
    match fprintf c.junk msg with
    | none => ⟨put [], [.opened d], .crash⟩
    | some text => .ok (put text) [.opened d, .closed d]
  else ⟨v, [], .crash⟩

/-- The file can be opened, and `fprintf` prints the text. -/
def Prints (c : Setup) (opens : Bool) (msg : Bytes) : Prop :=
  opens = true ∧ (fprintf c.junk msg).isSome

instance (c : Setup) (opens : Bool) (msg : Bytes) : Decidable (Prints c opens msg) :=
  inferInstanceAs (Decidable (_ ∧ _))

/-- **Either the file is written or the process ends.** -/
theorem printFile_cases (c : Setup) (d : Desc) (opens : Bool) (msg : Bytes) (put : Bytes → Vars)
    (v : Vars) :
    (Prints c opens msg ∧ ∃ text, fprintf c.junk msg = some text ∧
      printFile c d opens msg put v = .ok (put text) [.opened d, .closed d]) ∨
    ¬ Prints c opens msg ∧ (printFile c d opens msg put v).exit = .crash := by
  unfold Prints printFile
  by_cases ho : opens = true
  · cases hp : fprintf c.junk msg with
    | none => exact Or.inr ⟨fun h => Bool.noConfusion h.2, by rw [if_pos ho]⟩
    | some text => exact Or.inl ⟨⟨ho, rfl⟩, text, rfl, by rw [if_pos ho]⟩
  · exact Or.inr ⟨fun h => ho h.1, by rw [if_neg ho]⟩

theorem printFile_go_iff {c : Setup} {d : Desc} {opens : Bool} {msg : Bytes} {put : Bytes → Vars}
    {v : Vars} : (printFile c d opens msg put v).exit = .go ↔ Prints c opens msg := by
  rcases printFile_cases c d opens msg put v with ⟨hp, text, _, heq⟩ | ⟨hp, hcrash⟩
  · rw [heq]
    exact iff_of_true rfl hp
  · rw [hcrash]
    exact iff_of_false Exit.noConfusion hp

/-- What holds whatever the file holds is kept. -/
theorem printFile_keeps {c : Setup} {d : Desc} {opens : Bool} {msg : Bytes} {put : Bytes → Vars}
    {v : Vars} {P : Vars → Prop} {Q : Event → Prop} (hv : P v) (hput : ∀ text, P (put text))
    (hopened : Q (.opened d)) (hclosed : Q (.closed d)) :
    (printFile c d opens msg put v).Keeps P Q := by
  unfold printFile
  by_cases ho : opens = true
  · rw [if_pos ho]
    cases fprintf c.junk msg with
    | none => exact ⟨hput [], List.forall_mem_singleton.mpr hopened⟩
    | some text =>
      exact ⟨hput text, List.forall_mem_cons.mpr ⟨hopened, List.forall_mem_singleton.mpr hclosed⟩⟩
  · rw [if_neg ho]
    exact .nil hv _

/-- `nbd_config` for the first of these entries, which has number `n`. -/
def printNbdConfig (c : Setup) (o : Outcomes) (rs : List DmbdConfigRemote) (n : Nat) (v : Vars) :
    Done Vars Event :=
  printFile c .nbdConfig (o.nbdFopen n) (nbdConfigMsg rs)
    (fun text => { v with nbdConfig := some text }) v

/-- `mount_file` with this ip. -/
def printMountFile (c : Setup) (o : Outcomes) (ip : Option Bytes) (v : Vars) : Done Vars Event :=
  printFile c .mountFile o.mountFopen (mountMsg ip)
    (fun text => { v with mountFile := some text }) v

theorem printNbdConfig_cases (c : Setup) (o : Outcomes) (rs : List DmbdConfigRemote) (n : Nat)
    (v : Vars) :
    (Prints c (o.nbdFopen n) (nbdConfigMsg rs) ∧
      ∃ text, fprintf c.junk (nbdConfigMsg rs) = some text ∧ printNbdConfig c o rs n v =
        .ok { v with nbdConfig := some text } [.opened .nbdConfig, .closed .nbdConfig]) ∨
    ¬ Prints c (o.nbdFopen n) (nbdConfigMsg rs) ∧ (printNbdConfig c o rs n v).exit = .crash :=
  printFile_cases _ _ _ _ _ _

theorem printMountFile_cases (c : Setup) (o : Outcomes) (ip : Option Bytes) (v : Vars) :
    (Prints c o.mountFopen (mountMsg ip) ∧ ∃ text, fprintf c.junk (mountMsg ip) = some text ∧
      printMountFile c o ip v =
        .ok { v with mountFile := some text } [.opened .mountFile, .closed .mountFile]) ∨
    ¬ Prints c o.mountFopen (mountMsg ip) ∧ (printMountFile c o ip v).exit = .crash :=
  printFile_cases _ _ _ _ _ _

/-- The loop that looks for the own entry: the last one found decides `bestio_cmd`. -/
def ownBestioCmd (c : Setup) : List DmbdConfigRemote → Bytes → Bytes
  | [], cmd => cmd
  | r :: rs, cmd =>
    ownBestioCmd c rs (if ipOf (r :: rs) = c.myNode.ip then bestioCmd c r else cmd)

/-- The loop that writes `nbd_config` and starts `nbd-server`, from entry `n` on. -/
def startNbdServers (c : Setup) (o : Outcomes) :
    List DmbdConfigRemote → Nat → Vars → Done Vars Event
  | [], _, v => .ok v []
  | r :: rs, n, v =>
    if ipOf (r :: rs) = c.myNode.ip then
      (printNbdConfig c o (r :: rs) n v).andThen fun v =>
        (Done.ok v [.launch .nbdServer (nbdServerCmd c) (o.nbdServer n)]).andThen
          (startNbdServers c o rs (n + 1))
    else startNbdServers c o rs (n + 1) v

/-- The configuration handler from the first `insmod` on. After `continue` on a failed one the
branch that answers "unsuccess" is out of reach. -/
def loadConfig (c : Setup) (o : Outcomes) (i : Int) (remote : List DmbdConfigRemote) (v : Vars) :
    Done Vars Event :=
  let v := { v with bestioCmd := ownBestioCmd c remote v.bestioCmd }
  let launched := [Event.launch .configInsmod v.bestioCmd o.configInsmod]
  if o.configInsmod ≠ 0 then ⟨v, launched, .cont⟩
  else
    ((Done.ok v launched).andThen (startNbdServers c o remote 0)).andThen fun v =>
      .ok v [.reply i (ascii "success" ++ [0])]

/-- `ReadDMBDRemote(dmbd_config_cmd, ..)`, and what is done with its result. -/
def withRemote (c : Setup) (v : Vars) (f : List DmbdConfigRemote → Done Vars Event) :
    Done Vars Event :=
  match readDMBDRemote c.json v.dmbdConfig with
  | none => ⟨v, [], .crash⟩
  | some remote => f remote

/-- No `cmd_type`. -/
def setConfig (c : Setup) (o : Outcomes) (i : Int) (v : Vars) : Done Vars Event :=
  if v.successFlag = 1 then ⟨v, [], .cont⟩
  else (writeConfig o v).andThen fun v => withRemote c v fun remote => loadConfig c o i remote v

/-- `USER_SET_CONFIG` -/
def userSetConfig (c : Setup) (o : Outcomes) (v : Vars) : Done Vars Event :=
  if c.serverLen > 1 then
    let r := msgSend c o.msgNet controllerCmd v
    .ok r.1.vars r.2
  else .ok v []

/-- `CONTROLLER_SET_CONFIG` -/
def controllerSetConfig (i : Int) (v : Vars) : Done Vars Event :=
  .ok v [.reply i (ascii "CONTROL_SET_ON" ++ [0])]

/-- `mount` -/
def mountHandler (c : Setup) (o : Outcomes) (myobj : Option Json) (v : Vars) : Done Vars Event :=
  let path := c.json.getString (objectGetEx myobj (ascii "mount_path"))
  let fs := c.json.getString (objectGetEx myobj (ascii "mount_fs"))
  let made := if o.access ≠ 0 then [Event.mkdir path o.mkdir] else []
  let mounted := made ++ [.mount (ascii "/dev/" ++ JCM_DEV) path fs o.mount]
  if o.mount < 0 then ⟨v, mounted, .cont⟩
  else
    ((Done.ok v mounted).andThen (printMountFile c o c.myNode.ip)).andThen fun v =>
      let r := mountMsgSend c o.mountNet (mountCmd c.myNode.ip) v
      .ok r.1.vars r.2

/-- `dmbd_mount_ip` -/
def dmbdMountIp (c : Setup) (myobj : Option Json) : Option Bytes :=
  c.json.getString (objectGetEx myobj (ascii "mount_ip"))

/-- `MOUNT_SET_ON` -/
def mountSetOn (c : Setup) (o : Outcomes) (myobj : Option Json) (v : Vars) : Done Vars Event :=
  printMountFile c o (dmbdMountIp c myobj) v

/-- `NBD_SET_ON` -/
def nbdSetOn (c : Setup) (i : Int) (v : Vars) : Done Vars Event :=
  withRemote c v fun _ => .ok v [.reply i (ascii "NBD_CLIENT_LOAD" ++ [0])]

/-! ## The end of the loop body -/

/-- The activation's loop over the entries, from entry `n` on: `insmod` of the own one,
`nbd-client` for the others. -/
def activate (c : Setup) (o : Outcomes) : List DmbdConfigRemote → Nat → Vars → Vars × List Event
  | [], _, v => (v, [])
  | r :: rs, n, v =>
    if ipOf (r :: rs) = c.myNode.ip then
      let t := activate c o rs (n + 1) { v with bestioCmd := bestioCmd c r }
      (t.1, .launch .goInsmod (bestioCmd c r) (o.activation n) :: t.2)
    else
      let t := activate c o rs (n + 1) v
      (t.1, .launch .nbdClient (nbdClientCmd (r :: rs)) (o.activation n) :: t.2)

/-- The module of the virtual disk, and after it the broadcast of `NBD_SET_ON`. -/
def loadDisk (c : Setup) (o : Outcomes) (v : Vars) : Vars × List Event :=
  let launched := [Event.launch .vrdInsmod moduleCmd o.vrdInsmod]
  if o.vrdInsmod = 0 ∧ v.count ≠ 0 then
    let r := nbdMsgSend c o.nbdNet nbdClientMsg v
    (r.1.vars, launched ++ r.2)
  else (v, launched)

/-- `if (count == server_len-1)` -/
def countGate (c : Setup) (o : Outcomes) (v : Vars) : Done Vars Event :=
  if v.count = c.serverLen - 1 then
    withRemote c v fun remote =>
      let a := activate c o remote 0 v
      let d := loadDisk c o a.1
      .ok { d.1 with count := 0 } (a.2 ++ d.2)
  else .ok v []

/-- `if (nbd_count == server_len-1)` -/
def nbdGate (c : Setup) (v : Vars) : Done Vars Event :=
  if v.nbdCount = c.serverLen - 1 then
    withRemote c v fun _ =>
      .ok { v with successFlag := 1, nbdCount := 0 } [.verdict v.clientSock (ascii "success")]
  else .ok v []

/-- `if (unsuccess_flag == 1)` -/
def unsuccessGate (v : Vars) : Done Vars Event :=
  if v.unsuccessFlag = 1 then
    .ok { v with unsuccessFlag := 0 } [.verdict v.clientSock (ascii "unsuccess" ++ [0])]
  else .ok v []

/-- The three `if` statements after the handler. -/
def gates (c : Setup) (o : Outcomes) (v : Vars) : Done Vars Event :=
  ((countGate c o v).andThen (nbdGate c)).andThen unsuccessGate

/-! ## One message, one descriptor, a run -/

/-- The handler of a message with this text. -/
def handler (c : Setup) (o : Outcomes) (i : Int) (text : Bytes) (v : Vars) : Done Vars Event :=
  match commandOf c text with
  | .setConfig => setConfig c o i v
  | .userSetConfig => userSetConfig c o v
  | .controllerSetConfig => controllerSetConfig i v
  | .mount => mountHandler c o (c.json.tokenerParse text) v
  | .mountSetOn => mountSetOn c o (c.json.tokenerParse text) v
  | .nbdSetOn => nbdSetOn c i v
  | .unknown => .ok v []

/-- The handling of the message in `buffer`, read from descriptor `i`. -/
def handle (c : Setup) (o : Outcomes) (i : Int) (v : Vars) : Done Vars Event :=
  (handler c o i (cstr v.buffer) v).andThen (gates c o)

/-- What happens at one ready descriptor: `accept` returned `fd`, or a read from `i` returned
`r`. -/
inductive Input where
  | accept (fd : Int)
  | read (i : Int) (r : Option Bytes) (o : Outcomes)

/-- One ready descriptor. A read that returns -1 has its message handled like any other. -/
def serve (c : Setup) (v : Vars) : Input → Vars × List Event
  | .accept fd =>
    if fd < 0 then ({ v with clientSock := fd }, [])
    else
      ({ v with clientSock := fd, fsStatus := insert fd v.fsStatus, maxfd := max v.maxfd fd },
        [.opened (.conn fd)])
  | .read i r o =>
    let v := { v with buffer := readTerm 4096 v.buffer r }
    if r = some [] then ({ v with fsStatus := v.fsStatus.erase i }, [.closed (.conn i)])
    else
      let h := handle c o i v
      ({ h.state with running := decide (h.exit ≠ .crash) },
        .message i (cstr v.buffer) :: h.events)

/-- The loop: nothing happens once the process has ended. -/
def step (c : Setup) (v : Vars) (inp : Input) : Vars × List Event :=
  if v.running then serve c v inp else (v, [])

end JcmController.Controller
