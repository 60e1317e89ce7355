import JcmController.Controller.Counters
import JcmController.Controller.Cluster
import JcmController.Controller.NbdConfig
import JcmController.Controller.Stalls

/-!
# A round of two servers

The coordinator handles one `USER_SET_CONFIG`. Meanwhile the other server takes up its three
messages, among inputs of any other kind: `CONTROLLER_SET_CONFIG` and the configuration on one
connection, `NBD_SET_ON` on another. What the coordinator reads is what the peer has written on
these connections; where it has written nothing, a read waits until the connection ends.

* `idle_of_start`: between messages both counters of a controller of two servers are zero.
* `ask_writes`, `config_taken`, `config_refused`, `load_writes`: what the peer writes on the
  connections.
* **`round_agrees`**: from every state a coordinator reaches and every state of its peer, the client
  is told "success" exactly when the peer's `insmod` and the coordinator's returned 0 and the peer
  had not completed a round of its own. Then both have the same configuration, and the peer's
  `nbd-server` was started on the file that says, where they are plain, the address, the port and
  the export that the coordinator's `nbd-client` was given. A peer that refuses writes nothing, and
  the coordinator goes no further while it waits for that.
-/

namespace JcmController.Controller

open JcmController.Lib

/-! ## The counters of two servers -/

/-- No answer is left over. -/
def Idle (v : Vars) : Prop := v.running = true → v.count = 0 ∧ v.nbdCount = 0

theorem msgTexts_length_le (net : Net) (connected : Bool) (buf : Bytes) (ns : List Nat) :
    (msgTexts net connected buf ns).length ≤ ns.length := by
  induction ns generalizing connected buf with
  | nil => exact Nat.le_refl 0
  | cons n ns ih =>
    unfold msgTexts
    by_cases hn : net.connects n connected = true
    · rw [if_pos hn]
      exact Nat.succ_le_succ (ih true _)
    · rw [if_neg hn]
      exact Nat.zero_le _

theorem loadsHeard_le (c : Setup) (o : Outcomes) (v : Vars) :
    loadsHeard c o v ≤ c.others.length := by
  unfold loadsHeard
  split_ifs
  · exact List.count_le_length.trans (nbdTexts_length_le _ _ _ _)
  · exact Nat.zero_le _

section Two

variable {c : Setup} (hlen : c.serverLen = 2)

include hlen

theorem others_le_one : c.others.length ≤ 1 := by
  have hlt := others_length_lt c
  unfold Setup.serverLen at hlen
  omega

/-- The gates take what a message brought. -/
theorem gates_idle {o : Outcomes} {v : Vars} (hr : Asks c o v → Readable c v)
    (hcount : v.count = 0 ∨ v.count = 1) (hnbd : v.nbdCount = 0) :
    (gates c o v).state.count = 0 ∧ (gates c o v).state.nbdCount = 0 := by
  obtain ⟨_, hcount', hnbd', _⟩ := gates_state hr
  have hle := (loadsHeard_le c o v).trans (others_le_one hlen)
  rw [hcount', hnbd']
  constructor
  · split_ifs with hc
    · rfl
    · rw [hlen] at hc
      exact hcount.resolve_right hc
  · split_ifs with hl
    · rfl
    · unfold Loaded at hl
      rw [hlen] at hl
      omega

/-- A message that does not end the process. -/
theorem handle_idle {o : Outcomes} {i : Int} {v : Vars} (hcount : v.count = 0)
    (hnbd : v.nbdCount = 0) (hx : (handle c o i v).exit ≠ .crash) :
    (handle c o i v).state.count = 0 ∧ (handle c o i v).state.nbdCount = 0 := by
  obtain ⟨hc, hn, _, _⟩ := handler_counts c o i v
  unfold handle at hx ⊢
  by_cases hgo : (handler c o i (cstr v.buffer) v).exit = .go
  · rw [Done.andThen_go hgo] at hx ⊢
    refine gates_idle hlen (readable_of_gates hx) ?_ (hn.trans hnbd)
    have hle : (msgTexts o.msgNet false o.msgNet.stack c.others).count (ascii "success") ≤ 1 :=
      List.count_le_length.trans ((msgTexts_length_le _ _ _ _).trans (others_le_one hlen))
    rw [hc, hcount]
    split_ifs
    · omega
    · exact Or.inl rfl
  · rw [Done.andThen_stop hgo] at hx ⊢
    have hcont : (handler c o i (cstr v.buffer) v).exit = .cont := by
      by_contra hne
      exact hx (crash_of_ne hgo hne)
    rw [if_neg (handler_cont hcont)] at hc
    exact ⟨hc.trans ((Int.add_zero _).trans hcount), hn.trans hnbd⟩

theorem step_idle {v : Vars} (h : Idle v) (inp : Input) : Idle (step c v inp).1 := by
  intro hlive
  have hrun := running_of_step hlive
  obtain ⟨hcount, hnbd⟩ := h hrun
  cases inp with
  | accept fd =>
    unfold step serve
    rw [if_pos hrun]
    by_cases hfd : fd < 0
    · simp only [if_pos hfd]
      exact ⟨hcount, hnbd⟩
    · simp only [if_neg hfd]
      exact ⟨hcount, hnbd⟩
  | read i r o =>
    by_cases hr : r = some []
    · unfold step serve
      rw [if_pos hrun]
      simp only [if_pos hr]
      exact ⟨hcount, hnbd⟩
    · rw [step_message hrun hr] at hlive ⊢
      exact handle_idle (v := afterRead v r) hlen hcount hnbd (of_decide_eq_true hlive)

/-- **Between messages both counters are zero**, over every run. -/
theorem idle_of_start {v₀ : Vars} (h₀ : v₀.Start c) (is : List Input) :
    Idle (final (step c) v₀ is) := by
  have hstep : ∀ v inp, Idle v → True → Idle (step c v inp).1 :=
    fun _ inp h _ => step_idle hlen h inp
  exact final_inv hstep is v₀ (fun _ => ⟨h₀.count, h₀.nbdCount⟩) fun _ _ => trivial

end Two

/-! ## What the peer writes -/

/-- What is written on the connection `i`, as a read there gets it. -/
def written (i : Int) (es : List Event) : Bytes := (writesOn i es).flatten

theorem written_append (i : Int) (es es' : List Event) :
    written i (es ++ es') = written i es ++ written i es' := by
  unfold written
  rw [writesOn_append, List.flatten_append]

/-- A read gets the first string of what was written, with its NUL. -/
theorem take_string {s : Bytes} (hlen : s.length < 1024) (rest : Bytes) :
    ∃ t, (s ++ [0] ++ rest).take 1024 = s ++ 0 :: t := by
  have hsize : (s ++ [0]).length ≤ 1024 := by
    rw [List.length_append]
    exact hlen
  refine ⟨rest.take (1024 - (s ++ [0]).length), ?_⟩
  rw [List.take_append, List.take_of_length_le hsize, List.append_assoc]
  rfl

theorem cstr_take_string {s : Bytes} (h : NulFree s) (hlen : s.length < 1024) (rest : Bytes) :
    cstr ((s ++ [0] ++ rest).take 1024) = s := by
  obtain ⟨t, ht⟩ := take_string hlen rest
  rw [ht]
  exact cstr_append_zero_cons h t

theorem textOf_text {text : Bytes} (h : NulFree text) (hlen : text.length < 4096) (v : Vars) :
    textOf v (some text) = text := by
  rw [textOf, cstr_readTerm_some, List.take_of_length_le (Nat.le_of_lt hlen), cstr_eq_self h]

theorem textOf_string {text : Bytes} (h : NulFree text) (hlen : text.length < 4096) (v : Vars) :
    textOf v (some (text ++ [0])) = text := by
  have hsize : (text ++ [0]).length ≤ 4096 := by
    rw [List.length_append]
    exact hlen
  rw [textOf, cstr_readTerm_some, List.take_of_length_le hsize, cstr_append_zero h]

/-- json-c reads the messages of the two senders. -/
structure JsonC.ReadsMessages (jc : JsonC) : Prop where
  controllerCmd : jc.tokenerParse controllerCmd =
    some (.obj [(ascii "cmd_type", some (.str (ascii "CONTROLLER_SET_CONFIG")))])
  nbdClientMsg : jc.tokenerParse nbdClientMsg =
    some (.obj [(ascii "cmd_type", some (.str (ascii "NBD_SET_ON")))])

section Peer

variable {p : Setup}

/-- The name of a command is what an object with it says. -/
theorem getString_cmdType (jc : JsonC) (s : Bytes) :
    jc.getString (objectGetEx (some (.obj [(ascii "cmd_type", some (.str s))]))
      (ascii "cmd_type")) = some (cstr s) := by
  simp [objectGetEx, JsonC.getString]

theorem commandOf_controllerCmd (h : p.json.ReadsMessages) :
    commandOf p controllerCmd = .controllerSetConfig := by
  unfold commandOf
  rw [h.controllerCmd, getString_cmdType]
  decide +kernel

theorem commandOf_nbdClientMsg (h : p.json.ReadsMessages) :
    commandOf p nbdClientMsg = .nbdSetOn := by
  unfold commandOf
  rw [h.nbdClientMsg, getString_cmdType]
  decide +kernel

/-- A message whose handler answers, before anything the gates write. -/
theorem step_written {w : Vars} {r : Option Bytes} {fd : Int} {o : Outcomes} {answer : Bytes}
    (hrun : w.running = true) (hr : r ≠ some [])
    (hanswer : handler p o fd (textOf w r) (afterRead w r) =
      .ok (afterRead w r) [.reply fd answer]) :
    ∃ rest, written fd (step p w (.read fd r o)).2 = answer ++ rest := by
  have hhandle : handle p o fd (afterRead w r) =
      (Done.ok (afterRead w r) [.reply fd answer]).andThen (gates p o) :=
    congrArg (Done.andThen · (gates p o)) hanswer
  refine ⟨written fd (gates p o (afterRead w r)).events, ?_⟩
  rw [step_message hrun hr, hhandle, Done.ok_andThen]
  show written fd ([.message fd (textOf w r), .reply fd answer] ++ (gates p o _).events) = _
  rw [written_append]
  simp [written, writesOn]

/-- **To `CONTROLLER_SET_CONFIG`** it answers "CONTROL_SET_ON". -/
theorem ask_writes (hjson : p.json.ReadsMessages) {w : Vars} (hrun : w.running = true) (fd : Int)
    (o : Outcomes) : ∃ rest, written fd (step p w (.read fd (some controllerCmd) o)).2 =
      ascii "CONTROL_SET_ON" ++ [0] ++ rest := by
  have htext : textOf w (some controllerCmd) = controllerCmd :=
    textOf_text (by decide +kernel) (by decide +kernel) w
  refine step_written hrun (by decide +kernel) ?_
  unfold handler
  rw [htext, commandOf_controllerCmd hjson]
  rfl

/-- **To `NBD_SET_ON`** it answers "NBD_CLIENT_LOAD", if it can read its configuration. -/
theorem load_writes (hjson : p.json.ReadsMessages) {w : Vars} (hrun : w.running = true)
    (hread : Readable p w) (fd : Int) (o : Outcomes) :
    ∃ rest, written fd (step p w (.read fd (some nbdClientMsg) o)).2 =
      ascii "NBD_CLIENT_LOAD" ++ [0] ++ rest := by
  have htext : textOf w (some nbdClientMsg) = nbdClientMsg :=
    textOf_text (by decide +kernel) (by decide +kernel) w
  have hread' : Readable p (afterRead w (some nbdClientMsg)) := hread
  refine step_written hrun (by decide +kernel) ?_
  unfold handler
  rw [htext, commandOf_nbdClientMsg hjson]
  exact nbdSetOn_readable hread' fd

/-! ## The configuration at the peer -/

/-- A text that is sent and read whole, and is a configuration. -/
structure ConfigText (c : Setup) (text : Bytes) : Prop where
  nulFree : NulFree text
  short : text.length < 4096
  command : commandOf c text = .setConfig

/-- A handler that does not end the process comes to its end where the peer has not completed a
round and the `insmod` returns 0. -/
theorem setConfig_exit {o : Outcomes} {fd : Int} {v : Vars}
    (hx : ((setConfig p o fd v).andThen (gates p o)).exit ≠ .crash) :
    (setConfig p o fd v).exit = .go ↔ v.successFlag ≠ 1 ∧ o.configInsmod = 0 := by
  refine (setConfig_go p o fd v).1.trans ⟨fun h => ⟨h.1, h.2.1⟩, fun ⟨hs, hi⟩ => ⟨hs, hi, ?_⟩⟩
  obtain ⟨remote, hno⟩ := not_forall.mp fun h => hx ((setConfig_crash_iff p o fd v).mpr ⟨hs, h⟩)
  obtain ⟨hread, hopens⟩ := Classical.not_imp.mp hno
  exact ⟨remote, hread, Classical.not_not.mp fun h => hopens ⟨hi, h⟩⟩

/-- What the peer has done with the configuration: the file, one `insmod` that returned 0, and what
the last own entry says. -/
structure Took (p : Setup) (o : Outcomes) (text : Bytes) (w w' : Vars) (es : List Event)
    (remote : List DmbdConfigRemote) : Prop where
  read : readDMBDRemote p.json (some text) = some remote
  file : w'.dmbdConfig = some text
  insmod : launches .configInsmod es = [(ownBestioCmd p remote w.bestioCmd, 0)]
  nbdConfig : w'.nbdConfig = ((lastOwn p remote 0).map fun own =>
    fprintf p.junk (nbdConfigMsg (own.2.1 :: own.2.2))).getD w.nbdConfig
  nbdServer : (launches .nbdServer es).getLast? =
    (lastOwn p remote 0).map fun own => (nbdServerCmd p, o.nbdServer own.1)

section Config

variable {text : Bytes} (htext : ConfigText p text) {w : Vars} {fd : Int} {o : Outcomes}
  (hlive : (step p w (.read fd (some (text ++ [0])) o)).1.running = true)

include htext

variable (fd o) in
/-- The message is handled by the configuration handler, on the whole text. -/
theorem step_config (hrun : w.running = true) :
    cstr (afterRead w (some (text ++ [0]))).buffer = text ∧
      step p w (.read fd (some (text ++ [0])) o) =
        ({ (handle p o fd (afterRead w (some (text ++ [0])))).state with
            running := decide ((handle p o fd (afterRead w (some (text ++ [0])))).exit ≠ .crash) },
          .message fd text :: (handle p o fd (afterRead w (some (text ++ [0])))).events) ∧
      handle p o fd (afterRead w (some (text ++ [0]))) =
        (setConfig p o fd (afterRead w (some (text ++ [0])))).andThen (gates p o) := by
  have hbuf : cstr (afterRead w (some (text ++ [0]))).buffer = text :=
    textOf_string htext.nulFree htext.short w
  refine ⟨hbuf, ?_, handle_setConfig (hbuf.symm ▸ htext.command) o fd⟩
  rw [step_message hrun (by simp), textOf_string htext.nulFree htext.short]

include hlive

theorem config_exit :
    (setConfig p o fd (afterRead w (some (text ++ [0])))).exit = .go ↔
      w.successFlag ≠ 1 ∧ o.configInsmod = 0 := by
  obtain ⟨_, hstep, hhandle⟩ := step_config htext fd o (running_of_step hlive)
  rw [hstep] at hlive
  have hx : (handle p o fd (afterRead w (some (text ++ [0])))).exit ≠ .crash :=
    of_decide_eq_true hlive
  exact setConfig_exit (hhandle ▸ hx)

/-- **A configuration that is not taken** is not answered. -/
theorem config_refused (hno : ¬ (w.successFlag ≠ 1 ∧ o.configInsmod = 0)) :
    written fd (step p w (.read fd (some (text ++ [0])) o)).2 = [] := by
  obtain ⟨hbuf, hstep, _⟩ := step_config htext fd o (running_of_step hlive)
  rw [hstep]
  show (writesOn fd (handle p o fd (afterRead w (some (text ++ [0])))).events).flatten = []
  rw [handle_writes (hbuf.symm ▸ htext.command), if_neg (mt (config_exit htext hlive).mp hno)]
  rfl

/-- **One that is taken** is answered "success". -/
theorem config_taken (hopen : o.configOpen = true) (hroom : text.length ≤ o.configWritten)
    (hyes : w.successFlag ≠ 1 ∧ o.configInsmod = 0) :
    (∃ rest, written fd (step p w (.read fd (some (text ++ [0])) o)).2 =
      ascii "success" ++ [0] ++ rest) ∧
      ∃ remote, Took p o text w (step p w (.read fd (some (text ++ [0])) o)).1
        (step p w (.read fd (some (text ++ [0])) o)).2 remote := by
  obtain ⟨hbuf, hstep, hhandle⟩ := step_config htext fd o (running_of_step hlive)
  have hgo := (config_exit htext hlive).mpr hyes
  obtain ⟨rest, hwrites⟩ : ∃ rest, writesOn fd (handle p o fd
      (afterRead w (some (text ++ [0])))).events = successText :: rest := by
    rw [handle_writes (hbuf.symm ▸ htext.command), if_pos hgo]
    exact ⟨_, rfl⟩
  have hstored : (stored o (afterRead w (some (text ++ [0])))).dmbdConfig = some text := by
    unfold stored
    rw [hbuf]
    exact congrArg some (List.take_of_length_le hroom)
  have hread : fileRead o (afterRead w (some (text ++ [0]))) =
      stored o (afterRead w (some (text ++ [0]))) := if_pos hopen
  obtain ⟨remote, hremote, hran⟩ := setConfig_ran hgo
  rw [hread, hstored] at hremote
  have hframe := gates_frame p o (setConfig p o fd (afterRead w (some (text ++ [0])))).state
  obtain ⟨_, hsites⟩ :=
    gates_unserved p o (setConfig p o fd (afterRead w (some (text ++ [0])))).state
  have hnone₁ : launches .configInsmod
      (gates p o (setConfig p o fd (afterRead w (some (text ++ [0])))).state).events = [] :=
    launches_eq_nil fun cmd ret he => (hsites _ he cmd ret).1 rfl
  have hnone₂ : launches .nbdServer
      (gates p o (setConfig p o fd (afterRead w (some (text ++ [0])))).state).events = [] :=
    launches_eq_nil fun cmd ret he => (hsites _ he cmd ret).2 rfl
  have hlaunches : ∀ site, launches site (step p w (.read fd (some (text ++ [0])) o)).2 =
      launches site (setConfig p o fd (afterRead w (some (text ++ [0])))).events ++
        launches site (gates p o (setConfig p o fd
          (afterRead w (some (text ++ [0])))).state).events := by
    intro site
    rw [hstep, hhandle, Done.andThen_go hgo]
    exact launches_append site _ _
  refine ⟨⟨rest.flatten, ?_⟩, remote, hremote, ?_, ?_, ?_, ?_⟩
  · rw [hstep]
    exact congrArg List.flatten hwrites
  · rw [hstep, hhandle, Done.andThen_go hgo]
    have hflag : (afterRead w (some (text ++ [0]))).successFlag ≠ 1 := hyes.1
    have hfile := setConfig_file (c := p) (o := o) hflag fd
    rw [hread] at hfile
    exact hframe.dmbdConfig.trans (hfile.trans hstored)
  · rw [hlaunches, hnone₁, List.append_nil]
    exact hran.insmod
  · rw [hstep, hhandle, Done.andThen_go hgo]
    exact hframe.nbdConfig.trans hran.nbdConfig
  · rw [hlaunches, hnone₂, List.append_nil]
    exact hran.nbdServer

end Config

/-- The input is no configuration. -/
def Calm (p : Setup) (w : Vars) (inp : Input) : Prop :=
  ∀ i r o, inp = .read i r o → r ≠ some [] → commandOf p (textOf w r) ≠ .setConfig

/-- It leaves both files as they are. -/
theorem step_calm {w : Vars} {inp : Input} (h : Calm p w inp) :
    (step p w inp).1.dmbdConfig = w.dmbdConfig ∧ (step p w inp).1.nbdConfig = w.nbdConfig := by
  by_cases hrun : w.running = true
  · cases inp with
    | accept fd =>
      unfold step serve
      rw [if_pos hrun]
      by_cases hfd : fd < 0
      · simp only [if_pos hfd]
        exact ⟨trivial, trivial⟩
      · simp only [if_neg hfd]
        exact ⟨trivial, trivial⟩
    | read i r o =>
      by_cases hr : r = some []
      · unfold step serve
        rw [if_pos hrun]
        simp only [if_pos hr]
        exact ⟨trivial, trivial⟩
      · obtain ⟨hfiles, _⟩ := handler_files (c := p) (o := o) (i := i) (v := afterRead w r)
          (h i r o rfl hr)
        have hkeeps : Done.Keeps
            (fun s : Vars => s.dmbdConfig = w.dmbdConfig ∧ s.nbdConfig = w.nbdConfig)
            (fun _ => True) (handle p o i (afterRead w r)) := by
          refine Done.Keeps.andThen ⟨⟨hfiles.dmbdConfig, hfiles.nbdConfig⟩, fun _ _ => trivial⟩ ?_
          intro hs
          have hframe := gates_frame p o (handler p o i (cstr (afterRead w r).buffer)
            (afterRead w r)).state
          exact ⟨⟨hframe.dmbdConfig.trans hs.1, hframe.nbdConfig.trans hs.2⟩, fun _ _ => trivial⟩
        rw [step_message hrun hr]
        exact hkeeps.1
  · rw [step_dead hrun]
    exact ⟨rfl, rfl⟩

theorem final_calm {w : Vars} {is : List Input}
    (h : ∀ t ∈ trace (step p) w is, Calm p t.before t.input) :
    (final (step p) w is).dmbdConfig = w.dmbdConfig ∧
      (final (step p) w is).nbdConfig = w.nbdConfig := by
  have hstep : ∀ v inp, (v.dmbdConfig = w.dmbdConfig ∧ v.nbdConfig = w.nbdConfig) →
      Calm p v inp →
        (step p v inp).1.dmbdConfig = w.dmbdConfig ∧ (step p v inp).1.nbdConfig = w.nbdConfig :=
    fun _ _ hv hc => ⟨(step_calm hc).1.trans hv.1, (step_calm hc).2.trans hv.2⟩
  exact final_inv hstep is w ⟨rfl, rfl⟩ h

end Peer

/-! ## The conversation -/

/-- The servers of `c` are itself and, as entry `n`, the server of `p`. -/
structure Paired (c p : Setup) (n : Nat) : Prop where
  serverLen : c.serverLen = 2
  others : c.others = [n]
  entry : c.At n p
  json : p.json = c.json

/-- What the peer takes up while the coordinator handles one request: the three messages, on two
connections, and any other inputs in between. -/
structure Talk where
  msgSock : Int
  nbdSock : Int
  asked : Outcomes
  meanwhile : List Input
  stored : Outcomes
  later : List Input
  loaded : Outcomes

namespace Talk

variable (k : Talk) (p : Setup) (w : Vars) (text : Bytes)

/-- `CONTROLLER_SET_CONFIG` arrives. -/
def ask : Input := .read k.msgSock (some controllerCmd) k.asked

/-- The configuration arrives. -/
def config : Input := .read k.msgSock (some (text ++ [0])) k.stored

/-- `NBD_SET_ON` arrives. -/
def load : Input := .read k.nbdSock (some nbdClientMsg) k.loaded

/-- The peer before the configuration arrives. -/
def atConfig : Vars := final (step p) w (k.ask :: k.meanwhile)

/-- The peer after the configuration. -/
def configured : Vars := (step p (k.atConfig p w) (k.config text)).1

/-- The peer before `NBD_SET_ON` arrives. -/
def atLoad : Vars := final (step p) (k.configured p w text) k.later

/-- The peer after the conversation. -/
def atEnd : Vars := (step p (k.atLoad p w text) k.load).1

end Talk

/-- The coordinator opens its file and reads what its peer has written, or nothing if the connection
has ended since. The peer's file takes the whole text, no other configuration arrives after it, and
the peer is alive when `NBD_SET_ON` arrives. -/
structure Conversation (p : Setup) (n : Nat) (o : Outcomes) (k : Talk) (w : Vars) (text : Bytes) :
    Prop where
  msgConnects : o.msgNet.connects n false = true
  nbdConnects : o.nbdNet.connects n false = true
  opens : o.msgNet.indexOpen n = true
  first : (o.msgNet.peer n).first = some (written k.msgSock (step p w k.ask).2)
  second : (o.msgNet.peer n).second =
    some (written k.msgSock (step p (k.atConfig p w) (k.config text)).2)
  answer : (o.nbdNet.peer n).first = some (written k.nbdSock (step p (k.atLoad p w text) k.load).2)
  stores : k.stored.configOpen = true ∧ text.length ≤ k.stored.configWritten
  alive : (k.atLoad p w text).running = true
  calm : ∀ t ∈ trace (step p) (k.configured p w text) k.later, Calm p t.before t.input

/-- The peer takes the configuration: it has not completed a round of its own, and its `insmod`
returns 0. -/
def Takes (p : Setup) (k : Talk) (w : Vars) : Prop :=
  (k.atConfig p w).successFlag ≠ 1 ∧ k.stored.configInsmod = 0

instance (p : Setup) (k : Talk) (w : Vars) : Decidable (Takes p k w) :=
  inferInstanceAs (Decidable (_ ∧ _))

/-- The round succeeds: the peer takes the configuration, and the `insmod` of the coordinator's disk
returns 0. -/
def Succeeds (p : Setup) (o : Outcomes) (k : Talk) (w : Vars) : Prop :=
  Takes p k w ∧ o.vrdInsmod = 0

instance (p : Setup) (o : Outcomes) (k : Talk) (w : Vars) : Decidable (Succeeds p o k w) :=
  inferInstanceAs (Decidable (_ ∧ _))

section Conversation

variable {c p : Setup} {n : Nat} {o : Outcomes} {k : Talk} {w : Vars} {text : Bytes}

theorem running_of_final {p : Setup} {w : Vars} {is : List Input}
    (h : (final (step p) w is).running = true) : w.running = true := by
  induction is generalizing w with
  | nil => exact h
  | cons inp is ih => exact running_of_step (ih h)

theorem Conversation.configAlive (h : Conversation p n o k w text) :
    (k.configured p w text).running = true := running_of_final h.alive

theorem Conversation.askAlive (h : Conversation p n o k w text) : w.running = true :=
  running_of_final (running_of_step h.configAlive)

/-- The first answer makes the coordinator send its configuration. -/
theorem Conversation.first_text (h : Conversation p n o k w text) (hjson : p.json.ReadsMessages)
    (buf : Bytes) : cstr (readTerm 1024 buf (o.msgNet.peer n).first) = ascii "CONTROL_SET_ON" := by
  obtain ⟨rest, hrest⟩ := ask_writes hjson h.askAlive k.msgSock k.asked
  rw [h.first, cstr_readTerm_some, Talk.ask, hrest]
  exact cstr_take_string (by decide +kernel) (by decide +kernel) rest

/-- The second one is "success" where the peer has taken it. -/
theorem Conversation.second_text (h : Conversation p n o k w text) (htext : ConfigText p text)
    (buf : Bytes) : cstr (readTerm 1024 buf (o.msgNet.peer n).second) =
      if Takes p k w then ascii "success" else [] := by
  rw [h.second, cstr_readTerm_some, Talk.config]
  split_ifs with htook
  · obtain ⟨⟨rest, hrest⟩, _⟩ := config_taken htext h.configAlive h.stores.1 h.stores.2 htook
    rw [hrest]
    exact cstr_take_string (by decide +kernel) (by decide +kernel) rest
  · rw [config_refused htext h.configAlive htook]
    rfl

/-- What the peer has taken is there when `NBD_SET_ON` arrives, and after it. -/
theorem Conversation.kept (h : Conversation p n o k w text) (hjson : p.json.ReadsMessages) :
    ((k.atLoad p w text).dmbdConfig = (k.configured p w text).dmbdConfig ∧
      (k.atLoad p w text).nbdConfig = (k.configured p w text).nbdConfig) ∧
    (k.atEnd p w text).dmbdConfig = (k.configured p w text).dmbdConfig ∧
      (k.atEnd p w text).nbdConfig = (k.configured p w text).nbdConfig := by
  have hlater := final_calm h.calm
  have hcalm : Calm p (k.atLoad p w text) k.load := by
    rintro i r o' ⟨⟩ _
    rw [textOf_text (by decide +kernel) (by decide +kernel), commandOf_nbdClientMsg hjson]
    exact Command.noConfusion
  obtain ⟨hdmbd, hnbd⟩ := step_calm hcalm
  exact ⟨hlater, hdmbd.trans hlater.1, hnbd.trans hlater.2⟩

/-- The acknowledgement, where the peer has taken the configuration. -/
theorem Conversation.load_text (h : Conversation p n o k w text) (hjson : p.json.ReadsMessages)
    (htext : ConfigText p text)
    (htook : Takes p k w) (buf : Bytes) :
    cstr (readInto 1024 buf (o.nbdNet.peer n).first) = ascii "NBD_CLIENT_LOAD" := by
  obtain ⟨_, remote, hran⟩ := config_taken htext h.configAlive h.stores.1 h.stores.2 htook
  have hread : Readable p (k.atLoad p w text) := by
    have hfile : (k.atLoad p w text).dmbdConfig = some text := (h.kept hjson).1.1.trans hran.file
    unfold Readable
    rw [hfile, hran.read]
    rfl
  obtain ⟨rest, hrest⟩ := load_writes hjson h.alive hread k.nbdSock k.loaded
  have hnul : 0 ∈ (ascii "NBD_CLIENT_LOAD" ++ [0] ++ rest).take 1024 := by
    obtain ⟨t, ht⟩ := take_string (s := ascii "NBD_CLIENT_LOAD") (by decide +kernel) rest
    rw [ht]
    exact List.mem_append_right _ List.mem_cons_self
  rw [h.answer, readInto, Talk.load, hrest, cstr_overlay hnul]
  exact cstr_take_string (by decide +kernel) (by decide +kernel) rest

end Conversation

/-! ## The coordinator -/

/-- Every entry of another server gets its `nbd-client`. -/
theorem nbdClient_mem_activate {c p : Setup} (hip : p.myNode.ip ≠ c.myNode.ip) (o : Outcomes)
    (remote : List DmbdConfigRemote) (n : Nat) (v : Vars)
    {own : Nat × DmbdConfigRemote × List DmbdConfigRemote} (h : lastOwn p remote n = some own) :
    .launch .nbdClient (nbdClientCmd (own.2.1 :: own.2.2)) (o.activation own.1) ∈
      (activate c o remote n v).2 := by
  induction remote generalizing n v with
  | nil => cases h
  | cons r rs ih =>
    obtain ⟨v', hv'⟩ := activate_cons c o r rs n v
    rw [hv']
    rw [lastOwn_cons] at h
    rcases Option.or_eq_some_iff.mp h with h | ⟨_, h⟩
    · exact List.mem_cons_of_mem _ (ih (n + 1) v' h)
    · obtain ⟨hown, heq⟩ := Option.ite_none_right_eq_some.mp h
      obtain rfl := Option.some.inj heq
      have hother : ipOf (r :: rs) ≠ c.myNode.ip := hown.trans_ne hip
      unfold activationEvent
      rw [if_neg hother]
      exact List.mem_cons_self

/-- A request's events: those of `msg_send`, and those of the gates. -/
theorem user_events {c : Setup} {v : Vars} (hcmd : commandOf c (cstr v.buffer) = .userSetConfig)
    (o : Outcomes) (i : Int) : (handle c o i v).events =
      (userSetConfig c o v).events ++ (gates c o (answered c o v)).events := by
  rw [handle_user hcmd, Done.andThen_go (userSetConfig_spec c o v).1, userSetConfig_state]

theorem Paired.ip_ne {c p : Setup} {n : Nat} (h : Paired c p n) : p.myNode.ip ≠ c.myNode.ip := by
  have hmem : n ∈ c.others := by
    rw [h.others]
    exact List.mem_cons_self
  obtain ⟨node, hnode, hip⟩ := ip_of_mem_othersFrom hmem
  have hentry := h.entry
  unfold Setup.At at hentry
  rw [show c.serverConfig[n]? = some node from hnode] at hentry
  rw [p.myNode_ip, ← Option.some.inj hentry]
  exact hip

/-- The peer serves what the coordinator has attached: for the last own entry of the peer in the
configuration, its `insmod` returned 0, its `nbd-server` was started on `nbd_config`, and that file
says the address, the port and the export of the coordinator's `nbd-client`. -/
structure Attached (p : Setup) (o : Outcomes) (k : Talk) (peerEvents events : List Event)
    (peerEnd : Vars) (own : Nat × DmbdConfigRemote × List DmbdConfigRemote) : Prop where
  insmod : launches .configInsmod peerEvents = [(bestioCmd p own.2.1, 0)]
  server : (launches .nbdServer peerEvents).getLast? =
    some (nbdServerCmd p, k.stored.nbdServer own.1)
  client : .launch .nbdClient (nbdClientCmd (own.2.1 :: own.2.2)) (o.activation own.1) ∈ events
  sections : Plain (ipOf (own.2.1 :: own.2.2)) (nbdPortOf (own.2.1 :: own.2.2))
      (nbdExportOf (own.2.1 :: own.2.2)) →
    peerEnd.nbdConfig.bind KeyFile.read = some (nbdSections (ipOf (own.2.1 :: own.2.2))
      (nbdPortOf (own.2.1 :: own.2.2)) (nbdExportOf (own.2.1 :: own.2.2)))

section Coordinator

variable {c p : Setup} {n : Nat} {o : Outcomes} {k : Talk} {w : Vars} {text : Bytes}
  (hpair : Paired c p n) (hjson : p.json.ReadsMessages) (htext : ConfigText p text)
  (h : Conversation p n o k w text)

include hpair htext h

/-- What `msg_send` finds in `buffer`. -/
theorem round_texts : msgTexts o.msgNet false o.msgNet.stack c.others =
    [if Takes p k w then ascii "success" else []] := by
  rw [hpair.others]
  unfold msgTexts
  rw [if_pos h.msgConnects, ← h.second_text htext]
  rfl

/-- A round that the peer does not take. -/
theorem answered_refused (hno : ¬ Takes p k w)
    (v : Vars) : SameRound v (answered c o v) := by
  unfold answered
  rw [round_texts hpair htext h, if_neg hno]
  exact ⟨Int.add_zero _, rfl, rfl, rfl⟩

theorem answered_taken (htook : Takes p k w)
    (v : Vars) : (answered c o v).count = v.count + 1 ∧ (answered c o v).nbdCount = v.nbdCount ∧
      (answered c o v).unsuccessFlag = v.unsuccessFlag := by
  unfold answered
  rw [round_texts hpair htext h, if_pos htook]
  exact ⟨rfl, rfl, rfl⟩

include hjson

/-- The acknowledgement is heard where the disk's module was loaded. -/
theorem loadsHeard_taken (htook : Takes p k w)
    {v : Vars} (hcount : v.count = 1) :
    loadsHeard c o v = if o.vrdInsmod = 0 then 1 else 0 := by
  have hl : v.count = c.serverLen - 1 := by
    rw [hcount, hpair.serverLen]
    rfl
  have hne : v.count ≠ 0 := by
    rw [hcount]
    exact Int.one_ne_zero
  have hsends : v.count = c.serverLen - 1 ∧ o.vrdInsmod = 0 ∧ v.count ≠ 0 ↔ o.vrdInsmod = 0 :=
    (and_iff_right hl).trans (and_iff_left hne)
  unfold loadsHeard
  rw [hpair.others]
  refine if_congr hsends ?_ rfl
  unfold nbdTexts
  rw [if_pos h.nbdConnects, ← h.load_text hjson htext htook o.nbdNet.stack]
  exact List.count_singleton_self

/-- **What the client is told.** -/
theorem round_verdicts {v : Vars} (hs : Settled c v) (hcount : v.count = 0) (hnbd : v.nbdCount = 0)
    (hfile : v.dmbdConfig = some text) (hcmd : commandOf c (cstr v.buffer) = .userSetConfig)
    (i : Int) : verdicts (handle c o i v).events =
      if Succeeds p o k w then [ascii "success"] else [] := by
  rw [handle_user_verdicts hcmd]
  by_cases htook : Takes p k w
  · obtain ⟨hcount', hnbd', hflag'⟩ := answered_taken hpair htext h htook v
    rw [hcount] at hcount'
    rw [hnbd] at hnbd'
    have hheard := loadsHeard_taken hpair hjson htext h htook hcount'
    have hread : Readable c v := by
      obtain ⟨_, remote, hran⟩ := config_taken htext h.configAlive h.stores.1 h.stores.2 htook
      unfold Readable
      rw [hfile, ← hpair.json, hran.read]
      rfl
    have hun : (answered c o v).unsuccessFlag ≠ 1 := hflag' ▸ hs.unsuccessFlag
    have hloaded : Loaded c o (answered c o v) ↔ o.vrdInsmod = 0 := by
      unfold Loaded
      rw [hnbd', hheard, hpair.serverLen]
      split_ifs with hvrd
      · exact iff_of_true rfl hvrd
      · exact iff_of_false (by decide) hvrd
    have hsucceeds : Loaded c o (answered c o v) ↔ Succeeds p o k w :=
      hloaded.trans (and_iff_right htook).symm
    rw [if_pos fun _ => hread]
    unfold gateVerdicts
    rw [if_neg hun, List.append_nil]
    exact if_congr hsucceeds rfl rfl
  · have hsettled := hs.of_same (answered_refused hpair htext h htook v)
    have hnone : gateVerdicts c o (answered c o v) = [] := by
      refine (gateVerdicts_eq_nil c o _).mpr (not_or.mpr ⟨fun hl => ?_, hsettled.unsuccessFlag⟩)
      have hlen : 2 ≤ c.serverLen := hpair.serverLen.ge
      unfold Loaded loadsHeard at hl
      rw [if_neg fun hc => hsettled.count hlen hc.1] at hl
      exact hsettled.nbdCount hlen (by simpa using hl)
    rw [hnone, ite_self, if_neg fun hsucc => htook hsucc.1]

omit hjson in
/-- A taken configuration is one for the coordinator too, and its activation reads it. -/
theorem countGate_taken (htook : Takes p k w)
    {v : Vars} (hcount : v.count = 0) (hfile : v.dmbdConfig = some text)
    {remote : List DmbdConfigRemote} (hremote : readDMBDRemote p.json (some text) = some remote) :
    ∃ cmd, (countGate c o (answered c o v)).events =
      (activate c o remote 0 (answered c o v)).2 ++
        (loadDisk c o { answered c o v with bestioCmd := cmd }).2 := by
  refine countGate_events ?_ ?_
  · rw [(answered_taken hpair htext h htook v).1, hcount, hpair.serverLen]
    rfl
  · rw [← hremote, hpair.json, ← hfile]
    rfl

omit hpair htext in
/-- The configuration that is sent. -/
theorem configExchange_text {v : Vars} (hfile : v.dmbdConfig = some text) (hnul : NulFree text)
    (hshort : text.length < 4096) (buf : Bytes) :
    .config n (text ++ [0]) ∈
      configExchange o.msgNet n v (readTerm 1024 buf (o.msgNet.peer n).first) := by
  have hindex : cstr (configIndex o.msgNet n v.dmbdConfig) = text := by
    have hopened : indexFile o.msgNet n (some text) = some text := if_pos h.opens
    rw [hfile, configIndex, hopened, cstr_readTerm_some,
      List.take_of_length_le (Nat.le_of_lt hshort), cstr_eq_self hnul]
  unfold configExchange
  rw [if_pos (h.first_text hjson buf), hindex]
  exact List.mem_append_right _ List.mem_cons_self

/-- **What the coordinator sends** to its peer: the first two messages of the conversation, and the
third where its disk's module was loaded. -/
theorem round_sends {v : Vars} (hcount : v.count = 0) (hfile : v.dmbdConfig = some text)
    (hcmd : commandOf c (cstr v.buffer) = .userSetConfig) (i : Int) :
    .sent .msgSend n controllerCmd ∈ (handle c o i v).events ∧
      .config n (text ++ [0]) ∈ (handle c o i v).events ∧
      (Succeeds p o k w → .sent .nbdMsgSend n nbdClientMsg ∈ (handle c o i v).events) := by
  have hlen : c.serverLen > 1 := by
    rw [hpair.serverLen]
    decide
  have hevents : (handle c o i v).events =
      (msgSend c o.msgNet controllerCmd v).2 ++ (gates c o (answered c o v)).events := by
    rw [user_events hcmd, userSetConfig, if_pos hlen]
    rfl
  have hsend : (msgSend c o.msgNet controllerCmd v).2 = o.msgNet.socketEvents ++
      .connect .msgSend n true ::
        (msgBody o.msgNet controllerCmd n ⟨v, true, o.msgNet.stack, 0⟩).2 := by
    unfold msgSend
    rw [send_eq_visit, hpair.others, visit_single h.msgConnects]
  rw [hevents, hsend]
  refine ⟨?_, ?_, fun hsucc => List.mem_append_right _ (mem_gates_of_mem_countGate ?_)⟩
  · refine List.mem_append_left _ (List.mem_append_right _ (List.mem_cons_of_mem _ ?_))
    exact List.mem_append_left _ (List.mem_append_left _ List.mem_cons_self)
  · refine List.mem_append_left _ (List.mem_append_right _ (List.mem_cons_of_mem _ ?_))
    refine List.mem_append_left _ (List.mem_append_right _ ?_)
    exact configExchange_text hjson h hfile htext.nulFree htext.short o.msgNet.stack
  · obtain ⟨_, remote, hran⟩ := config_taken htext h.configAlive h.stores.1 h.stores.2 hsucc.1
    obtain ⟨cmd, hgate⟩ := countGate_taken hpair htext h hsucc.1 hcount hfile hran.read
    have hloads : o.vrdInsmod = 0 ∧ (answered c o v).count ≠ 0 := by
      refine ⟨hsucc.2, ?_⟩
      rw [(answered_taken hpair htext h hsucc.1 v).1, hcount]
      exact Int.one_ne_zero
    rw [hgate]
    refine List.mem_append_right _ ?_
    unfold loadDisk
    rw [if_pos hloads]
    refine List.mem_append_right _ ?_
    unfold nbdMsgSend
    rw [send_eq_visit, hpair.others, visit_single h.nbdConnects]
    exact List.mem_append_right _ (List.mem_cons_of_mem _ List.mem_cons_self)

/-- **What is attached** is what the peer serves. -/
theorem round_attached {v : Vars} (hcount : v.count = 0) (hfile : v.dmbdConfig = some text)
    (hcmd : commandOf c (cstr v.buffer) = .userSetConfig) (i : Int)
    (htook : Takes p k w) :
    ∃ remote, readDMBDRemote c.json (some text) = some remote ∧
      ∀ own, lastOwn p remote 0 = some own →
        Attached p o k (step p (k.atConfig p w) (k.config text)).2 (handle c o i v).events
          (k.atEnd p w text) own := by
  obtain ⟨_, remote, hran⟩ := config_taken htext h.configAlive h.stores.1 h.stores.2 htook
  obtain ⟨cmd, hgate⟩ := countGate_taken hpair htext h htook hcount hfile hran.read
  refine ⟨remote, hpair.json ▸ hran.read, fun own hown => ⟨?_, ?_, ?_, fun hplain => ?_⟩⟩
  · have hcmd := ownBestioCmd_eq (c := p) remote 0 (k.atConfig p w).bestioCmd
    rw [hown] at hcmd
    exact hran.insmod.trans (by rw [hcmd]; rfl)
  · have hserver := hran.nbdServer
    rwa [hown] at hserver
  · rw [user_events hcmd]
    refine List.mem_append_right _ (mem_gates_of_mem_countGate ?_)
    rw [hgate]
    exact List.mem_append_left _ (nbdClient_mem_activate hpair.ip_ne o remote 0 _ hown)
  · have hnbd := (h.kept hjson).2.2.trans hran.nbdConfig
    rw [hown] at hnbd
    rw [hnbd, Option.map_some, Option.getD_some, nbdConfigMsg_eq,
      fprintf_plain (nbdConfigText_format.mpr hplain.format), Option.bind_some]
    exact read_nbdConfigText hplain.ip hplain.port hplain.nbdExport

end Coordinator

/-! ## The round -/

/-- Coordinator and peer agree after the round. -/
structure Agreed (c p : Setup) (o : Outcomes) (k : Talk) (w : Vars) (text : Bytes) (v' : Vars)
    (events : List Event) : Prop where
  ownFile : v'.dmbdConfig = some text
  peerFile : (k.atEnd p w text).dmbdConfig = some text
  attached : ∃ remote, readDMBDRemote c.json (some text) = some remote ∧
    ∀ own, lastOwn p remote 0 = some own →
      Attached p o k (step p (k.atConfig p w) (k.config text)).2 events (k.atEnd p w text) own

/-- What a successful request leaves, from a state with no answers left over. -/
theorem step_agreed {c p : Setup} {n : Nat} (hpair : Paired c p n) (hjson : p.json.ReadsMessages)
    {text : Bytes} (htext : ConfigText p text) {o : Outcomes} {k : Talk} {w : Vars}
    (h : Conversation p n o k w text) (hsucc : Succeeds p o k w) {v : Vars}
    (hrun : v.running = true) (hcount : v.count = 0) (hfile : v.dmbdConfig = some text)
    {r : Option Bytes} (hr : r ≠ some []) (hcmd : commandOf c (textOf v r) = .userSetConfig)
    (i : Int) : Agreed c p o k w text (step c v (.read i r o)).1 (step c v (.read i r o)).2 := by
  obtain ⟨_, remote, hran⟩ := config_taken htext h.configAlive h.stores.1 h.stores.2 hsucc.1
  obtain ⟨remote, hremote, hattached⟩ := round_attached (v := afterRead v r) hpair hjson htext h
    hcount hfile hcmd i hsucc.1
  refine ⟨?_, (h.kept hjson).2.1.trans hran.file, remote, hremote, fun own hown => ?_⟩
  · have hcalm : Calm c v (.read i r o) := by
      rintro i' r' o' ⟨⟩ _
      rw [hcmd]
      exact Command.noConfusion
    exact (step_calm hcalm).1.trans hfile
  · obtain ⟨hinsmod, hserver, hclient, hsections⟩ := hattached own hown
    rw [step_message hrun hr]
    exact ⟨hinsmod, hserver, List.mem_cons_of_mem _ hclient, hsections⟩

/-- A coordinator that waits for its peer for ever goes no further. -/
theorem step_waits {c p : Setup} {n : Nat} (hpair : Paired c p n) {o : Outcomes}
    (hconnects : o.msgNet.connects n false = true) {v : Vars} (hrun : v.running = true)
    {r : Option Bytes} (hr : r ≠ some []) (hcmd : commandOf c (textOf v r) = .userSetConfig)
    (i : Int) {st : Stalls} (hst : st.exchange .msgSend n = true) :
    (stallStep c v (.read i r o, st)).1.running = false := by
  have hsend : StallsSend st c .msgSend o.msgNet := by
    refine ⟨n, ?_, hst⟩
    rw [hpair.others]
    unfold reached
    rw [if_pos hconnects]
    exact List.mem_cons_self
  have hhandler : StallsHandler st c o (afterRead v r) := by
    have hcmd' : commandOf c (cstr (afterRead v r).buffer) = .userSetConfig := hcmd
    unfold StallsHandler
    rw [hcmd']
    exact hsend
  have hstep : stallStep c v (.read i r o, st) = stallServe st c v (.read i r o) := if_pos hrun
  rw [hstep]
  exact (stallServe_ends_iff hrun _).mpr (Or.inr ⟨hr, Or.inl hhandler⟩)

/-- **A round of two servers**, from every state that a run leaves the coordinator in and every
state of its peer, with any other inputs at the peer: the coordinator sends the conversation's
messages, the client is told "success" exactly when the round succeeds, and then the two agree. A
peer that does not take the configuration writes nothing, and while its connection stays open the
coordinator goes no further. -/
theorem round_agrees (c p : Setup) (n : Nat) (hpair : Paired c p n) (hjson : p.json.ReadsMessages)
    (v₀ : Vars) (h₀ : v₀.Start c) (is : List Input)
    (hrun : (final (step c) v₀ is).running = true) (i : Int) (r : Option Bytes) (o : Outcomes)
    (hr : r ≠ some []) (hcmd : commandOf c (textOf (final (step c) v₀ is) r) = .userSetConfig)
    (text : Bytes) (hfile : (final (step c) v₀ is).dmbdConfig = some text)
    (htext : ConfigText p text) (k : Talk) (w : Vars) (h : Conversation p n o k w text) :
    let t := step c (final (step c) v₀ is) (.read i r o)
    (.sent .msgSend n controllerCmd ∈ t.2 ∧ .config n (text ++ [0]) ∈ t.2 ∧
      (Succeeds p o k w → .sent .nbdMsgSend n nbdClientMsg ∈ t.2)) ∧
    verdicts t.2 = (if Succeeds p o k w then [ascii "success"] else []) ∧
    (Succeeds p o k w → Agreed c p o k w text t.1 t.2) ∧
    (¬ Takes p k w → written k.msgSock (step p (k.atConfig p w) (k.config text)).2 = [] ∧
      ∀ st : Stalls, st.exchange .msgSend n = true →
        (stallStep c (final (step c) v₀ is) (.read i r o, st)).1.running = false) := by
  obtain ⟨hcount, hnbd⟩ := idle_of_start hpair.serverLen h₀ is hrun
  have hs : Settled c (afterRead (final (step c) v₀ is) r) :=
    (final_between h₀.between is hrun).of_same ⟨rfl, rfl, rfl, rfl⟩
  have hstep := step_message (c := c) hrun hr i o
  obtain ⟨hask, hconfig, hload⟩ := round_sends (v := afterRead (final (step c) v₀ is) r) hpair hjson
    htext h hcount hfile hcmd i
  intro t
  have ht : t.2 = .message i (textOf (final (step c) v₀ is) r) ::
      (handle c o i (afterRead (final (step c) v₀ is) r)).events := by
    show (step c (final (step c) v₀ is) (.read i r o)).2 = _
    rw [hstep]
  rw [ht]
  refine ⟨⟨List.mem_cons_of_mem _ hask, List.mem_cons_of_mem _ hconfig,
    fun hsucc => List.mem_cons_of_mem _ (hload hsucc)⟩, ?_, fun hsucc => ?_, fun hno => ⟨?_, ?_⟩⟩
  · exact round_verdicts hpair hjson htext h hs hcount hnbd hfile hcmd i
  · rw [← ht]
    exact step_agreed hpair hjson htext h hsucc hrun hcount hfile hr hcmd i
  · exact config_refused htext h.configAlive hno
  · exact fun st hst => step_waits hpair h.msgConnects hrun hr hcmd i hst

/-- json-c on the texts of a round. -/
def roundJson : JsonC :=
  jsonOf [(userText, .obj [(ascii "cmd_type", some (.str (ascii "USER_SET_CONFIG")))]),
    (controllerCmd, .obj [(ascii "cmd_type", some (.str (ascii "CONTROLLER_SET_CONFIG")))]),
    (nbdClientMsg, .obj [(ascii "cmd_type", some (.str (ascii "NBD_SET_ON")))]),
    (pairConfig, .obj [(ascii "remote", some (.arr [some ownEntry, some sampleEntry]))])]

/-- The peer of `twoServers roundJson`. -/
def roundPeer : Setup := setupOf roundJson (ascii "10.0.0.2") [ascii "10.0.0.1"]

theorem roundPeer_reads : roundPeer.json.ReadsMessages := by
  constructor
  · simp only [roundPeer, setupOf, roundJson, jsonOf]
    rw [List.find?_cons_of_neg (by decide +kernel), List.find?_cons_of_pos (by decide +kernel)]
    rfl
  · simp only [roundPeer, setupOf, roundJson, jsonOf]
    rw [List.find?_cons_of_neg (by decide +kernel), List.find?_cons_of_neg (by decide +kernel),
      List.find?_cons_of_pos (by decide +kernel)]
    rfl

/-- A client connects to the peer while it is asked, and every call succeeds. -/
def roundTalk : Talk := ⟨5, 6, allOk, [.accept 7], allOk, [.accept 6], allOk⟩

theorem roundTalk_conversation :
    Conversation roundPeer 1 allOk roundTalk (startVars none) pairConfig := by
  refine ⟨rfl, rfl, rfl, ?_, ?_, ?_, ⟨rfl, ?_⟩, ?_, ?_⟩
  · decide +kernel
  · decide +kernel
  · decide +kernel
  · decide +kernel
  · decide +kernel
  · refine List.forall_mem_cons.mpr ⟨?_, fun _ h => absurd h List.not_mem_nil⟩
    rintro i r o ⟨⟩

/-- A round in which every call succeeds: both have the configuration. -/
theorem round_agrees_two :
    verdicts (step (twoServers roundJson) (final (step (twoServers roundJson))
        (startVars (some pairConfig)) [.accept 4]) (userInput 4)).2 = [ascii "success"] ∧
      (roundTalk.atEnd roundPeer (startVars none) pairConfig).dmbdConfig = some pairConfig := by
  have hsucc : Succeeds roundPeer allOk roundTalk (startVars none) := by decide +kernel
  obtain ⟨_, htold, hagreed⟩ := round_agrees (twoServers roundJson) roundPeer 1
    ⟨by decide, by decide +kernel, by decide +kernel, rfl⟩ roundPeer_reads
    (startVars (some pairConfig)) (startVars_start _ _ _ _) [.accept 4] rfl 4
    (some (userText ++ [0])) allOk (by decide +kernel) (by decide +kernel) pairConfig rfl
    ⟨by decide +kernel, by decide +kernel, by decide +kernel⟩ roundTalk (startVars none)
    roundTalk_conversation
  exact ⟨htold.trans (if_pos hsucc), (hagreed.1 hsucc).peerFile⟩

end JcmController.Controller
