import JcmController.Controller.Broadcast
import JcmController.Controller.Main

/-!
# What a message can change of a round

The state of a round is `count`, `nbd_count`, `unsuccess_flag` and `client_sock`. An event is
`Plain` if it is neither a verdict, nor a command of the activation, nor a connection on which the
controller then waits.

Results:
* `handler_still`: every handler but that of `USER_SET_CONFIG` leaves the state of a round alone
  and has plain events only.
* `userSetConfig_spec`: `USER_SET_CONFIG` always reaches the gates, and its events are a sender's.
* `gates_activation`, `gates_verdict`: the activation needs `count == server_len-1`, verdicts go
  to `client_sock`.
* **`handle_settled`**: after any message none of the three conditions holds, if there are two
  servers or more; and `gates_settled`: then they do nothing.
-/

namespace JcmController.Controller

open JcmController.Lib

/-! ## Kinds of events -/

/-- `nbd-client`, or one of the two `insmod` of the activation. -/
def Event.IsActivation (e : Event) : Prop :=
  ∃ site cmd ret, e = .launch site cmd ret ∧ site ≠ .configInsmod ∧ site ≠ .nbdServer

/-- "success" or "unsuccess" written to `client_sock`. -/
def Event.IsVerdict (e : Event) : Prop := ∃ fd msg, e = .verdict fd msg

/-- A connection to entry `n` on which the controller then waits for answers. -/
def Event.IsWait (e : Event) (n : Nat) : Prop := ∃ f, e = .connect f n true ∧ f ≠ .mountMsgSend

/-- None of the three. -/
def Event.Plain : Event → Prop
  | .verdict _ _ => False
  | .launch site _ _ => site = .configInsmod ∨ site = .nbdServer
  | .connect f _ _ => f = .mountMsgSend
  | _ => True

/-- Plain, and no reply. -/
def Event.Silent : Event → Prop
  | .reply _ _ => False
  | e => e.Plain

/-- An event of a sender's body. -/
def Event.OfBody : Event → Prop
  | .sent _ _ _ | .config _ _ | .answer _ _ _ | .opened .index => True
  | _ => False

/-- An event of a sender. -/
def Event.OfSender : Event → Prop
  | .connect _ _ _ | .sent _ _ _ | .config _ _ | .answer _ _ _ => True
  | .opened d => d = .socket ∨ d = .index
  | _ => False

/-- A call of `system` or an event of a sender. -/
def Event.OfActivation (e : Event) : Prop := (∃ site cmd ret, e = .launch site cmd ret) ∨ e.OfSender

theorem Event.Plain.not_activation {e : Event} (h : e.Plain) : ¬ e.IsActivation := by
  rintro ⟨site, cmd, ret, rfl, h₁, h₂⟩
  rcases h with h | h
  · exact h₁ h
  · exact h₂ h

theorem Event.Plain.not_verdict {e : Event} (h : e.Plain) : ¬ e.IsVerdict := by
  rintro ⟨fd, msg, rfl⟩
  exact h

theorem Event.Plain.not_wait {e : Event} (h : e.Plain) (n : Nat) : ¬ e.IsWait n := by
  rintro ⟨f, rfl, hf⟩
  exact hf h

theorem Event.Silent.plain {e : Event} (h : e.Silent) : e.Plain := by
  cases e with
  | reply => exact absurd h id
  | _ => exact h

theorem Event.OfBody.ofSender {e : Event} (h : e.OfBody) : e.OfSender := by
  cases e with
  | opened d =>
    cases d with
    | index => exact Or.inr rfl
    | _ => exact absurd h id
  | _ => trivial

theorem Event.OfBody.not_wait {e : Event} (h : e.OfBody) (n : Nat) : ¬ e.IsWait n := by
  rintro ⟨f, rfl, _⟩
  exact h

theorem Event.OfSender.not_activation {e : Event} (h : e.OfSender) : ¬ e.IsActivation := by
  rintro ⟨site, cmd, ret, rfl, _, _⟩
  exact h

theorem Event.OfSender.not_verdict {e : Event} (h : e.OfSender) : ¬ e.IsVerdict := by
  rintro ⟨fd, msg, rfl⟩
  exact h

theorem Event.OfActivation.not_verdict {e : Event} (h : e.OfActivation) : ¬ e.IsVerdict := by
  rcases h with ⟨site, cmd, ret, rfl⟩ | h
  · rintro ⟨_, _, h⟩
    cases h
  · exact h.not_verdict

/-! ## The state of a round -/

/-- The state of a round is the same. -/
structure SameRound (v w : Vars) : Prop where
  count : w.count = v.count
  nbdCount : w.nbdCount = v.nbdCount
  unsuccessFlag : w.unsuccessFlag = v.unsuccessFlag
  clientSock : w.clientSock = v.clientSock

theorem SameRound.refl (v : Vars) : SameRound v v := ⟨rfl, rfl, rfl, rfl⟩

theorem SameRound.trans {u v w : Vars} (h : SameRound u v) (h' : SameRound v w) :
    SameRound u w :=
  ⟨h'.count.trans h.count, h'.nbdCount.trans h.nbdCount,
    h'.unsuccessFlag.trans h.unsuccessFlag, h'.clientSock.trans h.clientSock⟩

/-- A statement that leaves the round alone. -/
def Still (v : Vars) : Done Vars Event → Prop := Done.Keeps (SameRound v) Event.Plain

theorem Still.andThen {v : Vars} {r : Done Vars Event} {f : Vars → Done Vars Event}
    (hr : Still v r) (hf : ∀ w, Still w (f w)) : Still v (r.andThen f) :=
  Done.Keeps.andThen hr fun h => ⟨h.trans (hf _).1, (hf _).2⟩

theorem still_of {v w : Vars} {es : List Event} {x : Exit} (h : SameRound v w)
    (hes : ∀ e ∈ es, e.Plain) : Still v ⟨w, es, x⟩ := ⟨h, hes⟩

theorem still_nil (v : Vars) (x : Exit) : Still v ⟨v, [], x⟩ := .nil (SameRound.refl v) x

/-! ## The senders -/

/-- What a sender's body keeps, the sender keeps. -/
theorem visit_keeps {f : SendFn} {net : Net} {body : Nat → Sender → Sender × List Event}
    {P : Vars → Prop} {Q : Event → Prop}
    (hbody : ∀ n s, P s.vars → P (body n s).1.vars ∧ ∀ e ∈ (body n s).2, Q e)
    (hconn : ∀ n ok, Q (.connect f n ok)) (ns : List Nat) (s : Sender) (hs : P s.vars) :
    P (visit f net body ns s).1.vars ∧ ∀ e ∈ (visit f net body ns s).2, Q e := by
  induction ns generalizing s with
  | nil => exact ⟨hs, fun _ he => absurd he List.not_mem_nil⟩
  | cons n ns ih =>
    unfold visit
    by_cases hn : net.connects n s.connected = true
    · rw [if_pos hn]
      obtain ⟨hb, hbe⟩ := hbody n { s with connected := true } hs
      obtain ⟨hr, hre⟩ := ih _ hb
      refine ⟨hr, ?_⟩
      intro e he
      rcases List.mem_cons.mp he with rfl | he
      · exact hconn n true
      · rcases List.mem_append.mp he with he | he
        · exact hbe e he
        · exact hre e he
    · rw [if_neg hn]
      refine ⟨hs, ?_⟩
      intro e he
      rw [List.mem_singleton.mp he]
      exact hconn n false

theorem send_keeps {c : Setup} {f : SendFn} {net : Net}
    {body : Nat → Sender → Sender × List Event} {P : Vars → Prop} {Q : Event → Prop}
    (hbody : ∀ n s, P s.vars → P (body n s).1.vars ∧ ∀ e ∈ (body n s).2, Q e)
    (hconn : ∀ n ok, Q (.connect f n ok)) (hopen : Q (.opened .socket)) {v : Vars} (hv : P v) :
    P (send c f net body v).1.vars ∧ ∀ e ∈ (send c f net body v).2, Q e := by
  rw [send_eq_visit]
  obtain ⟨hP, hQ⟩ := visit_keeps hbody hconn c.others ⟨v, false, net.stack, 0⟩ hv
  refine ⟨hP, fun e he => ?_⟩
  rcases List.mem_append.mp he with he | he
  · unfold Net.socketEvents at he
    by_cases hs : 0 ≤ net.socket
    · rw [if_pos hs] at he
      rwa [List.mem_singleton.mp he]
    · rw [if_neg hs] at he
      exact absurd he List.not_mem_nil
  · exact hQ e he

theorem answerEvents_ofBody {f : SendFn} {n : Nat} {r : Option Bytes} :
    ∀ e ∈ answerEvents f n r, e.OfBody := by
  cases r with
  | none => exact fun _ he => absurd he List.not_mem_nil
  | some bs =>
    intro e he
    rw [List.mem_singleton.mp he]
    trivial

theorem configExchange_ofBody {net : Net} {n : Nat} {v : Vars} {first : Bytes} :
    ∀ e ∈ configExchange net n v first, e.OfBody := by
  intro e he
  unfold configExchange at he
  by_cases hf : cstr first = ascii "CONTROL_SET_ON"
  · rw [if_pos hf] at he
    rcases List.mem_append.mp he with he | he
    · by_cases hd : (indexFile net n v.dmbdConfig).isSome = true
      · rw [if_pos hd] at he
        rw [List.mem_singleton.mp he]
        trivial
      · rw [if_neg hd] at he
        exact absurd he List.not_mem_nil
    · rw [List.mem_singleton.mp he]
      trivial
  · rw [if_neg hf] at he
    exact absurd he List.not_mem_nil

theorem msgBody_ofBody {net : Net} {buf : Bytes} {n : Nat} {s : Sender} :
    ∀ e ∈ (msgBody net buf n s).2, e.OfBody := by
  intro e he
  unfold msgBody at he
  rcases List.mem_append.mp he with he | he
  · rcases List.mem_append.mp he with he | he
    · rcases List.mem_cons.mp he with rfl | he
      · trivial
      · exact answerEvents_ofBody e he
    · exact configExchange_ofBody e he
  · exact answerEvents_ofBody e he

theorem nbdBody_ofBody {net : Net} {buf : Bytes} {n : Nat} {s : Sender} :
    ∀ e ∈ (nbdBody net buf n s).2, e.OfBody := by
  intro e he
  unfold nbdBody at he
  rcases List.mem_cons.mp he with rfl | he
  · trivial
  · exact answerEvents_ofBody e he

theorem takeVerdict_same (second : Bytes) (v : Vars) :
    (takeVerdict second v).nbdCount = v.nbdCount ∧
      (takeVerdict second v).clientSock = v.clientSock ∧
      (takeVerdict second v).dmbdConfig = v.dmbdConfig := by
  unfold takeVerdict
  by_cases hs : cstr second = ascii "success"
  · rw [if_pos hs]
    exact ⟨rfl, rfl, rfl⟩
  · rw [if_neg hs]
    by_cases hu : cstr second = ascii "unsuccess"
    · rw [if_pos hu]
      exact ⟨rfl, rfl, rfl⟩
    · rw [if_neg hu]
      exact ⟨rfl, rfl, rfl⟩

/-- `msg_send` leaves `nbd_count` and `client_sock` alone. -/
theorem msgSend_keeps (c : Setup) (net : Net) (buf : Bytes) (v : Vars) :
    ((msgSend c net buf v).1.vars.nbdCount = v.nbdCount ∧
      (msgSend c net buf v).1.vars.clientSock = v.clientSock) ∧
      ∀ e ∈ (msgSend c net buf v).2, e.OfSender := by
  refine send_keeps (P := fun w => w.nbdCount = v.nbdCount ∧ w.clientSock = v.clientSock)
    (fun n s hs => ⟨?_, fun e he => (msgBody_ofBody e he).ofSender⟩) (fun _ _ => trivial)
    (Or.inl rfl) ⟨rfl, rfl⟩
  obtain ⟨h₁, h₂, _⟩ := takeVerdict_same
    (readTerm 1024 (readTerm 1024 s.buffer (net.peer n).first) (net.peer n).second) s.vars
  exact ⟨h₁.trans hs.1, h₂.trans hs.2⟩

theorem mountMsgSend_keeps (c : Setup) (net : Net) (buf : Bytes) (v : Vars) :
    SameRound v (mountMsgSend c net buf v).1.vars ∧
      ∀ e ∈ (mountMsgSend c net buf v).2, e.Silent := by
  refine send_keeps (P := SameRound v) (fun n s hs => ⟨hs, fun e he => ?_⟩) (fun _ _ => rfl)
    trivial (SameRound.refl v)
  rw [List.mem_singleton.mp he]
  trivial

/-- `mount_msg_send` changes nothing. -/
theorem mountMsgSend_vars (c : Setup) (net : Net) (buf : Bytes) (v : Vars) :
    (mountMsgSend c net buf v).1.vars = v :=
  (send_keeps (P := fun w => w = v) (Q := fun _ => True) (fun _ _ hs => ⟨hs, fun _ _ => trivial⟩)
    (fun _ _ => trivial) trivial rfl).1

/-- `nbd_msg_send` leaves `unsuccess_flag` and `client_sock` alone. -/
theorem nbdMsgSend_keeps (c : Setup) (net : Net) (buf : Bytes) (v : Vars) :
    ((nbdMsgSend c net buf v).1.vars.unsuccessFlag = v.unsuccessFlag ∧
      (nbdMsgSend c net buf v).1.vars.clientSock = v.clientSock) ∧
      ∀ e ∈ (nbdMsgSend c net buf v).2, e.OfSender := by
  refine send_keeps
    (P := fun w => w.unsuccessFlag = v.unsuccessFlag ∧ w.clientSock = v.clientSock)
    (fun n s hs => ⟨?_, fun e he => (nbdBody_ofBody e he).ofSender⟩) (fun _ _ => trivial)
    (Or.inl rfl) ⟨rfl, rfl⟩
  unfold nbdBody takeLoad
  by_cases hl : cstr (readInto 1024 s.buffer (net.peer n).first) = ascii "NBD_CLIENT_LOAD"
  · simp only [if_pos hl]
    exact hs
  · simp only [if_neg hl]
    exact hs

/-! ## The handlers -/

/-- What the loop that starts `nbd-server` keeps: what no contents of `nbd_config` change. -/
theorem startNbdServers_keeps {c : Setup} {o : Outcomes} {P : Vars → Prop} {Q : Event → Prop}
    (hput : ∀ w text, P w → P { w with nbdConfig := some text }) (hopened : Q (.opened .nbdConfig))
    (hclosed : Q (.closed .nbdConfig))
    (hlaunch : ∀ ret, Q (.launch .nbdServer (nbdServerCmd c) ret)) :
    ∀ (rs : List DmbdConfigRemote) (n : Nat) (v : Vars), P v →
      (startNbdServers c o rs n v).Keeps P Q
  | [], _, _, hv => .nil hv _
  | r :: rs, n, v, hv => by
    unfold startNbdServers
    by_cases hip : ipOf (r :: rs) = c.myNode.ip
    · rw [if_pos hip]
      refine Done.Keeps.andThen
        (printFile_keeps hv (fun text => hput v text hv) hopened hclosed) fun hw => ?_
      refine Done.Keeps.andThen ⟨hw, List.forall_mem_singleton.mpr (hlaunch _)⟩ fun hw => ?_
      exact startNbdServers_keeps hput hopened hclosed hlaunch rs (n + 1) _ hw
    · rw [if_neg hip]
      exact startNbdServers_keeps hput hopened hclosed hlaunch rs (n + 1) v hv

theorem printFile_ne_cont (c : Setup) (d : Desc) (opens : Bool) (msg : Bytes)
    (put : Bytes → Vars) (v : Vars) : (printFile c d opens msg put v).exit ≠ .cont := by
  rcases printFile_cases c d opens msg put v with ⟨-, text, -, heq⟩ | ⟨-, hcrash⟩
  · rw [heq]
    exact Exit.noConfusion
  · exact hcrash.trans_ne Exit.noConfusion

theorem startNbdServers_ne_cont (c : Setup) (o : Outcomes) :
    ∀ (rs : List DmbdConfigRemote) (n : Nat) (v : Vars),
      (startNbdServers c o rs n v).exit ≠ .cont
  | [], _, _ => Exit.noConfusion
  | r :: rs, n, v => by
    unfold startNbdServers
    by_cases hip : ipOf (r :: rs) = c.myNode.ip
    · rw [if_pos hip]
      exact Done.andThen_ne_cont (printFile_ne_cont _ _ _ _ _ _) fun w =>
        Done.andThen_ne_cont Exit.noConfusion (startNbdServers_ne_cont c o rs (n + 1))
    · rw [if_neg hip]
      exact startNbdServers_ne_cont c o rs (n + 1) v

/-- What neither goes on nor continues has ended the process. -/
theorem crash_of_ne {x : Exit} (hgo : x ≠ .go) (hcont : x ≠ .cont) : x = .crash := by
  cases x with
  | go => exact absurd rfl hgo
  | cont => exact absurd rfl hcont
  | crash => rfl

theorem startNbdServers_still (c : Setup) (o : Outcomes) (rs : List DmbdConfigRemote) (n : Nat)
    (v : Vars) : Still v (startNbdServers c o rs n v) :=
  startNbdServers_keeps (fun _ _ h => ⟨h.count, h.nbdCount, h.unsuccessFlag, h.clientSock⟩) trivial
    trivial (fun _ => Or.inr rfl) rs n v (SameRound.refl v)

theorem writeConfig_still (o : Outcomes) (v : Vars) : Still v (writeConfig o v) := by
  unfold writeConfig
  by_cases ho : o.configOpen = true
  · rw [if_pos ho]
    exact still_of ⟨rfl, rfl, rfl, rfl⟩ (by simp [Event.Plain])
  · rw [if_neg ho]
    exact still_nil v _

/-- What is kept whatever is read is kept where nothing can be read. -/
theorem withRemote_keeps {c : Setup} {v : Vars} {P : Vars → Prop} {Q : Event → Prop}
    {f : List DmbdConfigRemote → Done Vars Event} (hv : P v)
    (hf : ∀ remote, Done.Keeps P Q (f remote)) : Done.Keeps P Q (withRemote c v f) := by
  unfold withRemote
  cases readDMBDRemote c.json v.dmbdConfig with
  | none => exact .nil hv _
  | some remote => exact hf remote

theorem loadConfig_still (c : Setup) (o : Outcomes) (i : Int) (remote : List DmbdConfigRemote)
    (v : Vars) : Still v (loadConfig c o i remote v) := by
  unfold loadConfig
  by_cases hi : o.configInsmod ≠ 0
  · simp only [if_pos hi]
    exact still_of ⟨rfl, rfl, rfl, rfl⟩ (by simp [Event.Plain])
  · simp only [if_neg hi]
    refine Still.andThen (Still.andThen (still_of ⟨rfl, rfl, rfl, rfl⟩ ?_)
      (startNbdServers_still c o remote 0)) fun w => still_of (SameRound.refl w) ?_
    · simp [Event.Plain]
    · simp [Event.Plain]

theorem setConfig_still (c : Setup) (o : Outcomes) (i : Int) (v : Vars) :
    Still v (setConfig c o i v) := by
  unfold setConfig
  by_cases hs : v.successFlag = 1
  · rw [if_pos hs]
    exact still_nil v _
  · rw [if_neg hs]
    exact Still.andThen (writeConfig_still o v) fun w =>
      withRemote_keeps (SameRound.refl w) fun remote => loadConfig_still c o i remote w

/-- `mkdir` and `mount`, as the handler of `mount` calls them. -/
def mountedEvents (c : Setup) (o : Outcomes) (myobj : Option Json) : List Event :=
  let path := c.json.getString (objectGetEx myobj (ascii "mount_path"))
  let fs := c.json.getString (objectGetEx myobj (ascii "mount_fs"))
  (if o.access ≠ 0 then [Event.mkdir path o.mkdir] else []) ++
    [.mount (ascii "/dev/" ++ JCM_DEV) path fs o.mount]

theorem mountHandler_fails {c : Setup} {o : Outcomes} (hm : o.mount < 0) (myobj : Option Json)
    (v : Vars) : mountHandler c o myobj v = ⟨v, mountedEvents c o myobj, .cont⟩ := by
  unfold mountHandler
  simp only [if_pos hm]
  rfl

theorem mountHandler_eq {c : Setup} {o : Outcomes} (hm : ¬ o.mount < 0) (myobj : Option Json)
    (v : Vars) :
    mountHandler c o myobj v =
      ((Done.ok v (mountedEvents c o myobj)).andThen (printMountFile c o c.myNode.ip)).andThen
        fun w => .ok (mountMsgSend c o.mountNet (mountCmd c.myNode.ip) w).1.vars
          (mountMsgSend c o.mountNet (mountCmd c.myNode.ip) w).2 := by
  unfold mountHandler
  simp only [if_neg hm]
  rfl

/-- What writing `mount_file` keeps: what no contents of it change. -/
theorem printMountFile_keeps {c : Setup} {o : Outcomes} {ip : Option Bytes} {P : Vars → Prop}
    {Q : Event → Prop} {v : Vars} (hv : P v) (hput : ∀ text, P { v with mountFile := some text })
    (hopened : Q (.opened .mountFile)) (hclosed : Q (.closed .mountFile)) :
    (printMountFile c o ip v).Keeps P Q := printFile_keeps hv hput hopened hclosed

/-- What the handler of `mount` keeps. -/
theorem mountHandler_keeps {c : Setup} {o : Outcomes} {myobj : Option Json} {P : Vars → Prop}
    {Q : Event → Prop} {v : Vars} (hv : P v) (hput : ∀ text, P { v with mountFile := some text })
    (hmkdir : ∀ path ret, Q (.mkdir path ret))
    (hmount : ∀ dev path fs ret, Q (.mount dev path fs ret))
    (hopened : Q (.opened .mountFile)) (hclosed : Q (.closed .mountFile))
    (hsend : ∀ w, P w → P (mountMsgSend c o.mountNet (mountCmd c.myNode.ip) w).1.vars ∧
      ∀ e ∈ (mountMsgSend c o.mountNet (mountCmd c.myNode.ip) w).2, Q e) :
    (mountHandler c o myobj v).Keeps P Q := by
  have hmounted : ∀ e ∈ mountedEvents c o myobj, Q e := by
    intro e he
    rcases List.mem_append.mp he with he | he
    · by_cases ha : o.access ≠ 0
      · rw [if_pos ha] at he
        rw [List.mem_singleton.mp he]
        exact hmkdir _ _
      · rw [if_neg ha] at he
        exact absurd he List.not_mem_nil
    · rw [List.mem_singleton.mp he]
      exact hmount _ _ _ _
  by_cases hm : o.mount < 0
  · rw [mountHandler_fails hm]
    exact ⟨hv, hmounted⟩
  · rw [mountHandler_eq hm]
    have hok : (Done.ok v (mountedEvents c o myobj)).Keeps P Q := ⟨hv, hmounted⟩
    exact Done.Keeps.andThen
      (hok.andThen fun _ => printMountFile_keeps hv hput hopened hclosed) fun hw => hsend _ hw

/-- After `mount` the handler comes to its end or ends the process. -/
theorem mountHandler_crash {c : Setup} {o : Outcomes} {myobj : Option Json} {v : Vars}
    (hm : ¬ o.mount < 0) (hgo : (mountHandler c o myobj v).exit ≠ .go) :
    (mountHandler c o myobj v).exit = .crash := by
  refine crash_of_ne hgo ?_
  rw [mountHandler_eq hm]
  exact Done.andThen_ne_cont (Done.andThen_ne_cont Exit.noConfusion
    fun _ => printFile_ne_cont _ _ _ _ _ _) fun _ => Exit.noConfusion

theorem mountHandler_silent (c : Setup) (o : Outcomes) (myobj : Option Json) (v : Vars) :
    Done.Keeps (SameRound v) Event.Silent (mountHandler c o myobj v) := by
  refine mountHandler_keeps (SameRound.refl v) (fun _ => ⟨rfl, rfl, rfl, rfl⟩) (fun _ _ => trivial)
    (fun _ _ _ _ => trivial) trivial trivial fun w hw => ?_
  obtain ⟨hr, hre⟩ := mountMsgSend_keeps c o.mountNet (mountCmd c.myNode.ip) w
  exact ⟨hw.trans hr, hre⟩

theorem mountSetOn_silent (c : Setup) (o : Outcomes) (myobj : Option Json) (v : Vars) :
    Done.Keeps (SameRound v) Event.Silent (mountSetOn c o myobj v) :=
  printMountFile_keeps (SameRound.refl v) (fun _ => ⟨rfl, rfl, rfl, rfl⟩) trivial trivial

/-- **Only `USER_SET_CONFIG` touches the state of a round**: every other handler leaves it as it is
and has plain events. -/
theorem handler_still {c : Setup} {o : Outcomes} {i : Int} {text : Bytes} {v : Vars}
    (h : commandOf c text ≠ .userSetConfig) : Still v (handler c o i text v) := by
  unfold handler
  cases hc : commandOf c text with
  | setConfig => exact setConfig_still c o i v
  | userSetConfig => exact absurd hc h
  | controllerSetConfig => exact still_of (SameRound.refl v) (by simp [Event.Plain])
  | mount =>
    obtain ⟨hs, he⟩ := mountHandler_silent c o (c.json.tokenerParse text) v
    exact ⟨hs, fun e h => (he e h).plain⟩
  | mountSetOn =>
    obtain ⟨hs, he⟩ := mountSetOn_silent c o (c.json.tokenerParse text) v
    exact ⟨hs, fun e h => (he e h).plain⟩
  | nbdSetOn =>
    exact withRemote_keeps (SameRound.refl v) fun _ =>
      still_of (SameRound.refl v) (by simp [Event.Plain])
  | unknown => exact still_nil v _

/-- `USER_SET_CONFIG` always reaches the gates. -/
theorem userSetConfig_spec (c : Setup) (o : Outcomes) (v : Vars) :
    (userSetConfig c o v).exit = .go ∧
      ((userSetConfig c o v).state.nbdCount = v.nbdCount ∧
        (userSetConfig c o v).state.clientSock = v.clientSock) ∧
      ∀ e ∈ (userSetConfig c o v).events, e.OfSender := by
  unfold userSetConfig
  by_cases hl : c.serverLen > 1
  · rw [if_pos hl]
    exact ⟨rfl, msgSend_keeps c o.msgNet controllerCmd v⟩
  · rw [if_neg hl]
    exact ⟨rfl, ⟨rfl, rfl⟩, fun _ he => absurd he List.not_mem_nil⟩

/-! ## The gates -/

/-- No condition of the gates holds. -/
structure Settled (c : Setup) (v : Vars) : Prop where
  count : 2 ≤ c.serverLen → v.count ≠ c.serverLen - 1
  nbdCount : 2 ≤ c.serverLen → v.nbdCount ≠ c.serverLen - 1
  unsuccessFlag : v.unsuccessFlag ≠ 1

theorem Settled.of_same {c : Setup} {v w : Vars} (h : Settled c v) (hw : SameRound v w) :
    Settled c w :=
  ⟨fun hl => hw.count ▸ h.count hl, fun hl => hw.nbdCount ▸ h.nbdCount hl,
    hw.unsuccessFlag ▸ h.unsuccessFlag⟩

theorem withRemote_go {c : Setup} {v : Vars} {f : List DmbdConfigRemote → Done Vars Event}
    (h : (withRemote c v f).exit = .go) : ∃ remote, withRemote c v f = f remote := by
  unfold withRemote at h ⊢
  cases hr : readDMBDRemote c.json v.dmbdConfig with
  | none => simp [hr] at h
  | some remote => exact ⟨remote, rfl⟩

theorem mem_withRemote {c : Setup} {v : Vars} {f : List DmbdConfigRemote → Done Vars Event}
    {e : Event} (h : e ∈ (withRemote c v f).events) : ∃ remote, e ∈ (f remote).events := by
  unfold withRemote at h
  cases hr : readDMBDRemote c.json v.dmbdConfig with
  | none => simp [hr] at h
  | some remote =>
    simp only [hr] at h
    exact ⟨remote, h⟩

/-- What the activation's loop keeps: all but `bestio_cmd`. Its events are calls of `system`. -/
theorem activate_keeps (c : Setup) (o : Outcomes) (rs : List DmbdConfigRemote) (n : Nat)
    (v : Vars) :
    (∃ cmd, (activate c o rs n v).1 = { v with bestioCmd := cmd }) ∧
      ∀ e ∈ (activate c o rs n v).2, ∃ site cmd ret, e = .launch site cmd ret := by
  induction rs generalizing n v with
  | nil => exact ⟨⟨v.bestioCmd, rfl⟩, fun _ he => absurd he List.not_mem_nil⟩
  | cons r rs ih =>
    unfold activate
    by_cases hip : ipOf (r :: rs) = c.myNode.ip
    · obtain ⟨⟨cmd, hs⟩, he⟩ := ih (n + 1) { v with bestioCmd := bestioCmd c r }
      rw [if_pos hip]
      exact ⟨⟨cmd, hs⟩, List.forall_mem_cons.mpr ⟨⟨_, _, _, rfl⟩, he⟩⟩
    · obtain ⟨hs, he⟩ := ih (n + 1) v
      rw [if_neg hip]
      exact ⟨hs, List.forall_mem_cons.mpr ⟨⟨_, _, _, rfl⟩, he⟩⟩

theorem loadDisk_keeps (c : Setup) (o : Outcomes) (v : Vars) :
    ((loadDisk c o v).1.unsuccessFlag = v.unsuccessFlag ∧
      (loadDisk c o v).1.clientSock = v.clientSock) ∧
      ∀ e ∈ (loadDisk c o v).2, e.OfActivation := by
  have hlaunch : ∀ e ∈ [Event.launch .vrdInsmod moduleCmd o.vrdInsmod], e.OfActivation := by
    intro e he
    rw [List.mem_singleton.mp he]
    exact Or.inl ⟨_, _, _, rfl⟩
  unfold loadDisk
  by_cases hc : o.vrdInsmod = 0 ∧ v.count ≠ 0
  · rw [if_pos hc]
    obtain ⟨hs, he⟩ := nbdMsgSend_keeps c o.nbdNet nbdClientMsg v
    refine ⟨hs, fun e hm => ?_⟩
    rcases List.mem_append.mp hm with hm | hm
    · exact hlaunch e hm
    · exact Or.inr (he e hm)
  · rw [if_neg hc]
    exact ⟨⟨rfl, rfl⟩, hlaunch⟩

theorem countGate_ne {c : Setup} {v : Vars} (h : v.count ≠ c.serverLen - 1) (o : Outcomes) :
    countGate c o v = .ok v [] := if_neg h

theorem countGate_go {c : Setup} {o : Outcomes} {v : Vars} (h : (countGate c o v).exit = .go) :
    (2 ≤ c.serverLen → (countGate c o v).state.count ≠ c.serverLen - 1) ∧
      (countGate c o v).state.unsuccessFlag = v.unsuccessFlag := by
  by_cases hc : v.count = c.serverLen - 1
  · unfold countGate at h ⊢
    rw [if_pos hc] at h ⊢
    obtain ⟨remote, hr⟩ := withRemote_go h
    rw [hr]
    refine ⟨fun hl => ?_, ?_⟩
    · show (0 : Int) ≠ c.serverLen - 1
      omega
    · obtain ⟨cmd, ha⟩ := (activate_keeps c o remote 0 v).1
      have hflag : (activate c o remote 0 v).1.unsuccessFlag = v.unsuccessFlag := by rw [ha]
      exact ((loadDisk_keeps c o _).1.1).trans hflag
  · rw [countGate_ne hc]
    exact ⟨fun _ => hc, rfl⟩

theorem countGate_clientSock (c : Setup) (o : Outcomes) (v : Vars) :
    (countGate c o v).state.clientSock = v.clientSock := by
  by_cases hc : v.count = c.serverLen - 1
  · unfold countGate withRemote
    rw [if_pos hc]
    cases readDMBDRemote c.json v.dmbdConfig with
    | none => rfl
    | some remote =>
      obtain ⟨cmd, ha⟩ := (activate_keeps c o remote 0 v).1
      have hsock : (activate c o remote 0 v).1.clientSock = v.clientSock := by rw [ha]
      exact ((loadDisk_keeps c o _).1.2).trans hsock
  · rw [countGate_ne hc]
    rfl

theorem mem_countGate {c : Setup} {o : Outcomes} {v : Vars} {e : Event}
    (he : e ∈ (countGate c o v).events) : e.OfActivation := by
  by_cases hc : v.count = c.serverLen - 1
  · unfold countGate at he
    rw [if_pos hc] at he
    obtain ⟨remote, he⟩ := mem_withRemote he
    rcases List.mem_append.mp he with he | he
    · exact Or.inl ((activate_keeps c o remote 0 v).2 e he)
    · exact (loadDisk_keeps c o _).2 e he
  · rw [countGate_ne hc] at he
    exact absurd he List.not_mem_nil

theorem nbdGate_ne {c : Setup} {v : Vars} (h : v.nbdCount ≠ c.serverLen - 1) :
    nbdGate c v = .ok v [] := if_neg h

theorem nbdGate_go {c : Setup} {v : Vars} (h : (nbdGate c v).exit = .go) :
    (nbdGate c v).state.count = v.count ∧
      (2 ≤ c.serverLen → (nbdGate c v).state.nbdCount ≠ c.serverLen - 1) := by
  by_cases hc : v.nbdCount = c.serverLen - 1
  · unfold nbdGate at h ⊢
    rw [if_pos hc] at h ⊢
    obtain ⟨remote, hr⟩ := withRemote_go h
    rw [hr]
    refine ⟨rfl, fun hl => ?_⟩
    show (0 : Int) ≠ c.serverLen - 1
    omega
  · rw [nbdGate_ne hc]
    exact ⟨rfl, fun _ => hc⟩

theorem mem_nbdGate {c : Setup} {v : Vars} {e : Event} (he : e ∈ (nbdGate c v).events) :
    e = .verdict v.clientSock (ascii "success") := by
  by_cases hc : v.nbdCount = c.serverLen - 1
  · unfold nbdGate at he
    rw [if_pos hc] at he
    obtain ⟨remote, he⟩ := mem_withRemote he
    exact List.mem_singleton.mp he
  · rw [nbdGate_ne hc] at he
    exact absurd he List.not_mem_nil

theorem nbdGate_clientSock (c : Setup) (v : Vars) :
    (nbdGate c v).state.clientSock = v.clientSock := by
  by_cases hc : v.nbdCount = c.serverLen - 1
  · unfold nbdGate withRemote
    rw [if_pos hc]
    cases readDMBDRemote c.json v.dmbdConfig with
    | none => rfl
    | some _ => rfl
  · rw [nbdGate_ne hc]
    rfl

theorem unsuccessGate_ne {v : Vars} (h : v.unsuccessFlag ≠ 1) : unsuccessGate v = .ok v [] :=
  if_neg h

theorem unsuccessGate_spec (v : Vars) :
    (unsuccessGate v).state.count = v.count ∧ (unsuccessGate v).state.nbdCount = v.nbdCount ∧
      (unsuccessGate v).state.unsuccessFlag ≠ 1 := by
  by_cases hu : v.unsuccessFlag = 1
  · unfold unsuccessGate
    rw [if_pos hu]
    exact ⟨rfl, rfl, Int.zero_ne_one⟩
  · rw [unsuccessGate_ne hu]
    exact ⟨rfl, rfl, hu⟩

theorem mem_unsuccessGate {v : Vars} {e : Event} (he : e ∈ (unsuccessGate v).events) :
    e = .verdict v.clientSock (ascii "unsuccess" ++ [0]) := by
  by_cases hu : v.unsuccessFlag = 1
  · unfold unsuccessGate at he
    rw [if_pos hu] at he
    exact List.mem_singleton.mp he
  · rw [unsuccessGate_ne hu] at he
    exact absurd he List.not_mem_nil

/-! ## The gates together -/

/-- Where no condition holds the gates do nothing. -/
theorem gates_settled {c : Setup} {v : Vars} (hl : 2 ≤ c.serverLen) (h : Settled c v)
    (o : Outcomes) : gates c o v = .ok v [] := by
  unfold gates
  rw [countGate_ne (h.count hl), Done.ok_nil_andThen, nbdGate_ne (h.nbdCount hl),
    Done.ok_nil_andThen, unsuccessGate_ne h.unsuccessFlag]

/-- **After the gates no condition holds.** -/
theorem gates_settles {c : Setup} {o : Outcomes} {v : Vars} (h : (gates c o v).exit = .go) :
    Settled c (gates c o v).state := by
  unfold gates at h ⊢
  have h₂ := Done.andThen_exit_go h
  have h₁ := Done.andThen_exit_go h₂
  rw [Done.andThen_go h₂]
  obtain ⟨hcount, hnbd, hflag⟩ := unsuccessGate_spec ((countGate c o v).andThen (nbdGate c)).state
  rw [Done.andThen_go h₁] at h₂ hcount hnbd hflag ⊢
  obtain ⟨hsame, hnbd'⟩ := nbdGate_go h₂
  refine ⟨fun hl => ?_, fun hl => ?_, hflag⟩
  · rw [hcount, hsame]
    exact (countGate_go h₁).1 hl
  · rw [hnbd]
    exact hnbd' hl

theorem withRemote_ne_cont {c : Setup} {v : Vars} {f : List DmbdConfigRemote → Done Vars Event}
    (hf : ∀ remote, (f remote).exit ≠ .cont) : (withRemote c v f).exit ≠ .cont := by
  unfold withRemote
  cases readDMBDRemote c.json v.dmbdConfig with
  | none => exact Exit.noConfusion
  | some remote => exact hf remote

theorem countGate_ne_cont (c : Setup) (o : Outcomes) (v : Vars) :
    (countGate c o v).exit ≠ .cont := by
  unfold countGate
  by_cases hc : v.count = c.serverLen - 1
  · rw [if_pos hc]
    exact withRemote_ne_cont fun _ => Exit.noConfusion
  · rw [if_neg hc]
    exact Exit.noConfusion

theorem nbdGate_ne_cont (c : Setup) (v : Vars) : (nbdGate c v).exit ≠ .cont := by
  unfold nbdGate
  by_cases hc : v.nbdCount = c.serverLen - 1
  · rw [if_pos hc]
    exact withRemote_ne_cont fun _ => Exit.noConfusion
  · rw [if_neg hc]
    exact Exit.noConfusion

theorem unsuccessGate_ne_cont (v : Vars) : (unsuccessGate v).exit ≠ .cont := by
  unfold unsuccessGate
  by_cases hu : v.unsuccessFlag = 1
  · rw [if_pos hu]
    exact Exit.noConfusion
  · rw [if_neg hu]
    exact Exit.noConfusion

/-- The gates go on or end the process. -/
theorem gates_ne_cont (c : Setup) (o : Outcomes) (v : Vars) : (gates c o v).exit ≠ .cont :=
  Done.andThen_ne_cont (Done.andThen_ne_cont (countGate_ne_cont c o v) (nbdGate_ne_cont c))
    unsuccessGate_ne_cont

/-- What the gates do not touch. -/
structure GateFrame (v w : Vars) : Prop where
  clientSock : w.clientSock = v.clientSock
  fsStatus : w.fsStatus = v.fsStatus
  maxfd : w.maxfd = v.maxfd
  dmbdConfig : w.dmbdConfig = v.dmbdConfig
  nbdConfig : w.nbdConfig = v.nbdConfig
  mountFile : w.mountFile = v.mountFile

theorem GateFrame.refl (v : Vars) : GateFrame v v := ⟨rfl, rfl, rfl, rfl, rfl, rfl⟩

theorem GateFrame.trans {u v w : Vars} (h : GateFrame u v) (h' : GateFrame v w) : GateFrame u w :=
  ⟨h'.clientSock.trans h.clientSock, h'.fsStatus.trans h.fsStatus, h'.maxfd.trans h.maxfd,
    h'.dmbdConfig.trans h.dmbdConfig, h'.nbdConfig.trans h.nbdConfig,
    h'.mountFile.trans h.mountFile⟩

theorem loadDisk_frame (c : Setup) (o : Outcomes) (v : Vars) :
    GateFrame v (loadDisk c o v).1 := by
  unfold loadDisk
  by_cases hc : o.vrdInsmod = 0 ∧ v.count ≠ 0
  · rw [if_pos hc]
    refine (send_keeps (P := GateFrame v) (Q := fun _ => True)
      (fun n s hs => ⟨?_, fun _ _ => trivial⟩) (fun _ _ => trivial) trivial (GateFrame.refl v)).1
    refine hs.trans ?_
    show GateFrame s.vars (takeLoad _ s.vars)
    unfold takeLoad
    split_ifs <;> exact ⟨rfl, rfl, rfl, rfl, rfl, rfl⟩
  · rw [if_neg hc]
    exact GateFrame.refl v

theorem withRemote_frame {c : Setup} {v : Vars} {f : List DmbdConfigRemote → Done Vars Event}
    (hf : ∀ remote, GateFrame v (f remote).state) : GateFrame v (withRemote c v f).state :=
  (withRemote_keeps (Q := fun _ => True) (GateFrame.refl v)
    fun remote => ⟨hf remote, fun _ _ => trivial⟩).1

/-- **The gates touch the counters, the flags and the command only.** -/
theorem gates_frame (c : Setup) (o : Outcomes) (v : Vars) : GateFrame v (gates c o v).state := by
  have hcount : GateFrame v (countGate c o v).state := by
    by_cases hc : v.count = c.serverLen - 1
    · unfold countGate
      rw [if_pos hc]
      refine withRemote_frame fun remote => ?_
      obtain ⟨cmd, ha⟩ := (activate_keeps c o remote 0 v).1
      have hload := loadDisk_frame c o (activate c o remote 0 v).1
      rw [ha] at hload
      show GateFrame v { (loadDisk c o (activate c o remote 0 v).1).1 with count := 0 }
      rw [ha]
      exact ⟨hload.clientSock, hload.fsStatus, hload.maxfd, hload.dmbdConfig, hload.nbdConfig,
        hload.mountFile⟩
    · rw [countGate_ne hc]
      exact GateFrame.refl v
  have hnbd : ∀ w, GateFrame w (nbdGate c w).state := by
    intro w
    unfold nbdGate
    by_cases hn : w.nbdCount = c.serverLen - 1
    · rw [if_pos hn]
      exact withRemote_frame fun _ => ⟨rfl, rfl, rfl, rfl, rfl, rfl⟩
    · rw [if_neg hn]
      exact GateFrame.refl w
  have hlast : ∀ w, GateFrame w (unsuccessGate w).state := by
    intro w
    unfold unsuccessGate
    split_ifs <;> exact ⟨rfl, rfl, rfl, rfl, rfl, rfl⟩
  have hthen : ∀ {r : Done Vars Event} {f : Vars → Done Vars Event}, GateFrame v r.state →
      (∀ w, GateFrame w (f w).state) → GateFrame v (r.andThen f).state := by
    intro r f hr hf
    by_cases hgo : r.exit = .go
    · rw [Done.andThen_go hgo]
      exact hr.trans (hf r.state)
    · rwa [Done.andThen_stop hgo]
  exact hthen (hthen hcount hnbd) hlast

/-- **The events of the gates**: those of the activation, of the disk's module and of the broadcast
after it, and verdicts. -/
theorem mem_gates {c : Setup} {o : Outcomes} {v : Vars} {e : Event}
    (he : e ∈ (gates c o v).events) :
    (∃ remote, e ∈ (activate c o remote 0 v).2) ∨ e = .launch .vrdInsmod moduleCmd o.vrdInsmod ∨
      (∃ w, e ∈ (nbdMsgSend c o.nbdNet nbdClientMsg w).2) ∨ ∃ fd text, e = .verdict fd text := by
  rcases Done.mem_andThen.mp he with he | ⟨_, he⟩
  · rcases Done.mem_andThen.mp he with he | ⟨_, he⟩
    · by_cases hc : v.count = c.serverLen - 1
      · unfold countGate at he
        rw [if_pos hc] at he
        obtain ⟨remote, he⟩ := mem_withRemote he
        rcases List.mem_append.mp he with he | he
        · exact Or.inl ⟨remote, he⟩
        · refine Or.inr ?_
          unfold loadDisk at he
          by_cases hd : o.vrdInsmod = 0 ∧ (activate c o remote 0 v).1.count ≠ 0
          · rw [if_pos hd] at he
            rcases List.mem_append.mp he with he | he
            · exact Or.inl (List.mem_singleton.mp he)
            · exact Or.inr (Or.inl ⟨_, he⟩)
          · rw [if_neg hd] at he
            exact Or.inl (List.mem_singleton.mp he)
      · rw [countGate_ne hc] at he
        exact absurd he List.not_mem_nil
    · exact Or.inr (Or.inr (Or.inr ⟨_, _, mem_nbdGate he⟩))
  · exact Or.inr (Or.inr (Or.inr ⟨_, _, mem_unsuccessGate he⟩))

/-- An activation means that `count` was `server_len-1`. -/
theorem gates_activation {c : Setup} {o : Outcomes} {v : Vars} {e : Event}
    (he : e ∈ (gates c o v).events) (ha : e.IsActivation) : v.count = c.serverLen - 1 := by
  obtain ⟨site, cmd, ret, rfl, _, _⟩ := ha
  rcases Done.mem_andThen.mp he with he | ⟨_, he⟩
  · rcases Done.mem_andThen.mp he with he | ⟨_, he⟩
    · by_contra hc
      rw [countGate_ne hc] at he
      exact List.not_mem_nil he
    · cases mem_nbdGate he
  · cases mem_unsuccessGate he

/-- Verdicts go to `client_sock`. -/
theorem gates_verdict {c : Setup} {o : Outcomes} {v : Vars} {fd : Int} {msg : Bytes}
    (he : .verdict fd msg ∈ (gates c o v).events) : fd = v.clientSock := by
  rcases Done.mem_andThen.mp he with he | ⟨hgo, he⟩
  · rcases Done.mem_andThen.mp he with he | ⟨_, he⟩
    · exact absurd ⟨fd, msg, rfl⟩ (mem_countGate he).not_verdict
    · cases mem_nbdGate he
      exact countGate_clientSock c o v
  · have h := mem_unsuccessGate he
    rw [Done.andThen_go (Done.andThen_exit_go hgo)] at h
    cases h
    exact (nbdGate_clientSock c _).trans (countGate_clientSock c o v)

/-! ## One message -/

/-- **After a message the process has ended or no condition holds.** -/
theorem handle_settled {c : Setup} {o : Outcomes} {i : Int} {v : Vars} (hv : Settled c v)
    (hx : (handle c o i v).exit ≠ .crash) : Settled c (handle c o i v).state := by
  unfold handle at hx ⊢
  by_cases hgo : (handler c o i (cstr v.buffer) v).exit = .go
  · have hg : (gates c o (handler c o i (cstr v.buffer) v).state).exit = .go := by
      rw [Done.andThen_go hgo] at hx
      have hcont := gates_ne_cont c o (handler c o i (cstr v.buffer) v).state
      cases hg : (gates c o (handler c o i (cstr v.buffer) v).state).exit with
      | go => rfl
      | cont => exact absurd hg hcont
      | crash => exact absurd hg hx
    rw [Done.andThen_go hgo]
    exact gates_settles hg
  · rw [Done.andThen_stop hgo]
    -- only a handler that leaves the round alone ends early
    have hcmd : commandOf c (cstr v.buffer) ≠ .userSetConfig := by
      intro hcmd
      refine hgo ?_
      unfold handler
      rw [hcmd]
      exact (userSetConfig_spec c o v).1
    exact hv.of_same (handler_still hcmd).1

end JcmController.Controller
