import JcmController.Controller.Gates

/-!
# Rounds over whole runs

A round is the handling of one `USER_SET_CONFIG`: `msg_send`, the activation, the verdict.

* `step_settled`: between messages no condition of the gates holds, whatever the message was.
* `notPlain_of_mem_step`: an activation or a verdict comes from the handling of a message.
* **`activation_unanimous`**: in a run in which each round starts with no success left over, the
  activation only runs in a round in which every other server answered "success".
* **`verdict_to_requester`**: in a run in which each `USER_SET_CONFIG` comes from the connection
  accepted last, verdicts go to the connection of the `USER_SET_CONFIG` they belong to.
-/

namespace JcmController.Controller

open JcmController.Lib

/-! ## One step -/

/-- The text that is handled after a read that returned `r`. -/
def textOf (v : Vars) (r : Option Bytes) : Bytes := cstr (readTerm 4096 v.buffer r)

/-- The state in which it is handled. -/
def afterRead (v : Vars) (r : Option Bytes) : Vars := { v with buffer := readTerm 4096 v.buffer r }

/-- The input is a `USER_SET_CONFIG` on connection `i`. -/
def Requests (c : Setup) (v : Vars) (i : Int) (inp : Input) : Prop :=
  ∃ r o, inp = .read i r o ∧ r ≠ some [] ∧ commandOf c (textOf v r) = .userSetConfig

theorem step_dead {c : Setup} {v : Vars} (h : ¬ v.running = true) (inp : Input) :
    step c v inp = (v, []) := if_neg h

/-- Only a living process does something. -/
theorem running_of_mem_step {c : Setup} {v : Vars} {inp : Input} {e : Event}
    (he : e ∈ (step c v inp).2) : v.running = true := by
  by_contra hdead
  rw [step_dead hdead] at he
  exact List.not_mem_nil he

/-- A process that has ended does nothing any more. -/
theorem running_of_mem_trace {c : Setup} {v : Vars} {is : List Input} {t : Taken Vars Input Event}
    {e : Event} (ht : t ∈ trace (step c) v is) (he : e ∈ t.events) : v.running = true := by
  by_contra hdead
  have hstep : ∀ s inp, ¬ s.running = true → True →
      ¬ (step c s inp).1.running = true ∧ (step c s inp).2 = [] := by
    intro s inp hs _
    rw [step_dead hs]
    exact ⟨hs, rfl⟩
  have hnone := forall_trace (P := fun _ _ es => es = []) hstep is v hdead (fun _ _ => trivial) t ht
  rw [hnone] at he
  exact List.not_mem_nil he

theorem step_message {c : Setup} {v : Vars} {r : Option Bytes} (hrun : v.running = true)
    (hr : r ≠ some []) (i : Int) (o : Outcomes) :
    step c v (.read i r o) =
      ({ (handle c o i (afterRead v r)).state with
          running := decide ((handle c o i (afterRead v r)).exit ≠ .crash) },
        .message i (textOf v r) :: (handle c o i (afterRead v r)).events) := by
  unfold step
  rw [if_pos hrun]
  unfold serve
  simp only [if_neg hr]
  rfl

/-- An activation or a verdict comes from the handling of a message. -/
theorem notPlain_of_mem_step {c : Setup} {v : Vars} {inp : Input} {e : Event}
    (he : e ∈ (step c v inp).2) (hp : ¬ e.Plain) :
    ∃ i r o, inp = .read i r o ∧ v.running = true ∧ r ≠ some [] ∧
      e ∈ (handle c o i (afterRead v r)).events := by
  have hrun := running_of_mem_step he
  cases inp with
  | accept fd =>
    unfold step serve at he
    rw [if_pos hrun] at he
    by_cases hfd : fd < 0
    · simp [hfd] at he
    · simp only [if_neg hfd, List.mem_singleton] at he
      rw [he] at hp
      exact absurd trivial hp
  | read i r o =>
    by_cases hr : r = some []
    · unfold step serve at he
      rw [if_pos hrun] at he
      simp only [if_pos hr, List.mem_singleton] at he
      rw [he] at hp
      exact absurd trivial hp
    · rw [step_message hrun hr] at he
      rcases List.mem_cons.mp he with rfl | he
      · exact absurd trivial hp
      · exact ⟨i, r, o, rfl, hrun, hr, he⟩

/-- Between messages no condition of the gates holds. -/
def Between (c : Setup) (v : Vars) : Prop := v.running = true → Settled c v

theorem Vars.Start.between {c : Setup} {v : Vars} (h : v.Start c) : Between c v := by
  intro _
  refine ⟨fun hl => ?_, fun hl => ?_, ?_⟩
  · rw [h.count]
    omega
  · rw [h.nbdCount]
    omega
  · rw [h.unsuccessFlag]
    exact Int.zero_ne_one

theorem step_settled {c : Setup} {v : Vars} (hv : Between c v) (inp : Input) :
    Between c (step c v inp).1 := by
  by_cases hrun : v.running = true
  · have hs := hv hrun
    cases inp with
    | accept fd =>
      intro _
      unfold step serve
      rw [if_pos hrun]
      by_cases hfd : fd < 0
      · simp only [if_pos hfd]
        exact ⟨hs.count, hs.nbdCount, hs.unsuccessFlag⟩
      · simp only [if_neg hfd]
        exact ⟨hs.count, hs.nbdCount, hs.unsuccessFlag⟩
    | read i r o =>
      by_cases hr : r = some []
      · intro _
        unfold step serve
        rw [if_pos hrun]
        simp only [if_pos hr]
        exact ⟨hs.count, hs.nbdCount, hs.unsuccessFlag⟩
      · rw [step_message hrun hr]
        intro hlive
        have hx : (handle c o i (afterRead v r)).exit ≠ .crash := of_decide_eq_true hlive
        have hs' := handle_settled (i := i) (o := o)
          (hs.of_same (w := afterRead v r) ⟨rfl, rfl, rfl, rfl⟩) hx
        exact ⟨hs'.count, hs'.nbdCount, hs'.unsuccessFlag⟩
  · rw [step_dead hrun]
    exact hv

/-- So it is in every state a run reaches. -/
theorem final_between {c : Setup} {v : Vars} (hv : Between c v) (is : List Input) :
    Between c (final (step c) v is) := by
  have hstep : ∀ s inp, Between c s → True → Between c (step c s inp).1 :=
    fun _ inp hs _ => step_settled hs inp
  exact final_inv hstep is v hv fun _ _ => trivial

theorem handle_user {c : Setup} {v : Vars} (h : commandOf c (cstr v.buffer) = .userSetConfig)
    (o : Outcomes) (i : Int) : handle c o i v = (userSetConfig c o v).andThen (gates c o) := by
  unfold handle handler
  rw [h]

/-- A message other than `USER_SET_CONFIG` has plain events only. -/
theorem handle_plain {c : Setup} {v : Vars} (hl : 2 ≤ c.serverLen) (hv : Settled c v)
    (h : commandOf c (cstr v.buffer) ≠ .userSetConfig) {o : Outcomes} {i : Int} {e : Event}
    (he : e ∈ (handle c o i v).events) : e.Plain := by
  have hs := handler_still (o := o) (i := i) (v := v) h
  rcases Done.mem_andThen.mp he with he | ⟨_, he⟩
  · exact hs.2 e he
  · rw [gates_settled hl (hv.of_same hs.1)] at he
    exact absurd he List.not_mem_nil

/-! ## Texts and outcomes of the runs below -/

/-- json-c on texts that start with one of these documents; it finds none in any other text. -/
def jsonOf (docs : List (Bytes × Json)) : JsonC where
  tokenerParse := fun text => (docs.find? fun d => d.1.isPrefixOf text).map Prod.snd
  toJsonString := fun _ => []
  parseInt64 := fun _ => 0

/-- The client's text. -/
def userText : Bytes := ascii "\x7b\"cmd_type\": \"USER_SET_CONFIG\"\x7d"

/-- A configuration with one entry, for the second server. -/
def sampleConfig : Bytes := ascii ("\x7b\"remote\":[\x7b\"ip\":\"10.0.0.2\"," ++
  "\"remote_dev\":\"/dev/nbd1\",\"dev_size\":1024,\"nbd_export\":\"export\"," ++
  "\"dmbd_nbd_port\":\"1111\"\x7d]\x7d")

/-- Its entry. -/
def sampleEntry : Json :=
  .obj [(ascii "ip", some (.str (ascii "10.0.0.2"))),
    (ascii "remote_dev", some (.str (ascii "/dev/nbd1"))),
    (ascii "dev_size", some (.num 1024 (ascii "1024"))),
    (ascii "nbd_export", some (.str (ascii "export"))),
    (ascii "dmbd_nbd_port", some (.str (ascii "1111")))]

/-- json-c on the texts of the runs below. -/
def sampleJson : JsonC :=
  jsonOf [(userText, .obj [(ascii "cmd_type", some (.str (ascii "USER_SET_CONFIG")))]),
    (sampleConfig, .obj [(ascii "remote", some (.arr [some sampleEntry]))])]

/-- The other of the two servers. -/
def peer : Setup := setupOf sampleJson (ascii "10.0.0.2") [ascii "10.0.0.1"]

/-- Every call succeeds and every server answers. -/
def allOk : Outcomes where
  configOpen := true
  configWritten := 4096
  configInsmod := 0
  nbdFopen := fun _ => true
  nbdServer := fun _ => 0
  activation := fun _ => 0
  vrdInsmod := 0
  access := 0
  mkdir := 0
  mount := 0
  mountFopen := true
  msgNet := msgOk
  mountNet := msgOk
  nbdNet := nbdOk

/-- The client's message arrives on `i`. -/
def userInput (i : Int) : Input := .read i (some (userText ++ [0])) allOk

theorem startVars_start (jc : JsonC) (me : Bytes) (rest : List Bytes) (file : Option Bytes) :
    (startVars file).Start (setupOf jc me rest) :=
  ⟨rfl, rfl, rfl, rfl, rfl, rfl, rfl, List.length_replicate, rfl⟩

/-! ## Activation -/

/-- One of the two reads from entry `n` returns. -/
def Net.Heard (net : Net) (n : Nat) : Prop :=
  (net.peer n).first ≠ none ∨ (net.peer n).second ≠ none

theorem mem_answerEvents (f : SendFn) (n : Nat) (bs : Bytes) :
    .answer f n (cstr (bs.take 1024)) ∈ answerEvents f n (some bs) := List.mem_singleton_self _

/-- One server adds at most one to `count`, and only by answering "success". -/
theorem msgBody_success {net : Net} {n : Nat} (hn : net.Heard n) (buf : Bytes) (s : Sender) :
    (msgBody net buf n s).1.vars.count = s.vars.count ∨
      (msgBody net buf n s).1.vars.count = s.vars.count + 1 ∧
        .answer .msgSend n (ascii "success") ∈ (msgBody net buf n s).2 := by
  unfold msgBody
  by_cases hc : cstr (readTerm 1024 (readTerm 1024 s.buffer (net.peer n).first)
      (net.peer n).second) = ascii "success"
  · refine Or.inr ⟨congrArg Vars.count (takeVerdict_success hc s.vars), ?_⟩
    cases hs : (net.peer n).second with
    | some bs =>
      rw [hs, cstr_readTerm_some] at hc
      refine List.mem_append_right _ ?_
      rw [← hc, hs]
      exact mem_answerEvents _ _ _
    | none =>
      -- a failed second read leaves the first answer in the buffer
      cases hf : (net.peer n).first with
      | none => exact (hn.resolve_left (not_not_intro hf) hs).elim
      | some bs =>
        rw [hs, readTerm_none, hf, cstr_readTerm_some] at hc
        refine List.mem_append_left _ (List.mem_append_left _ (List.mem_cons_of_mem _ ?_))
        rw [← hc, hf]
        exact mem_answerEvents _ _ _
  · exact Or.inl (takeVerdict_count hc s.vars)

/-- **`msg_send` adds one for each success at most**, so it adds as many as there are servers only
if each answered "success". -/
theorem visit_msgBody_count (net : Net) (buf : Bytes) (ns : List Nat) (s : Sender)
    (hns : ∀ n ∈ ns, net.Heard n) :
    ∃ k : Nat, k ≤ ns.length ∧
      (visit .msgSend net (msgBody net buf) ns s).1.vars.count = s.vars.count + k ∧
      (k = ns.length → ∀ n ∈ ns, .answer .msgSend n (ascii "success") ∈
        (visit .msgSend net (msgBody net buf) ns s).2) := by
  induction ns generalizing s with
  | nil =>
    exact ⟨0, Nat.le_refl 0, (Int.add_zero _).symm, fun _ _ hn => absurd hn List.not_mem_nil⟩
  | cons n ns ih =>
    obtain ⟨hn, hns⟩ := List.forall_mem_cons.mp hns
    unfold visit
    by_cases hc : net.connects n s.connected = true
    · rw [if_pos hc]
      obtain ⟨k, hk, hcount, hall⟩ := ih (msgBody net buf n { s with connected := true }).1 hns
      rcases msgBody_success hn buf { s with connected := true } with hb | ⟨hb, ha⟩
      · refine ⟨k, Nat.le_succ_of_le hk, hcount.trans (by rw [hb]), fun he => ?_⟩
        exact absurd (he ▸ hk) (Nat.not_succ_le_self _)
      · refine ⟨k + 1, Nat.succ_le_succ hk, ?_, fun he => ?_⟩
        · rw [hcount, hb]
          show s.vars.count + 1 + (k : Int) = s.vars.count + ((k + 1 : Nat) : Int)
          omega
        · refine List.forall_mem_cons.mpr ⟨?_, fun m hm => ?_⟩
          · exact List.mem_cons_of_mem _ (List.mem_append_left _ ha)
          · exact List.mem_cons_of_mem _
              (List.mem_append_right _ (hall (Nat.succ.inj he) m hm))
    · rw [if_neg hc]
      exact ⟨0, Nat.zero_le _, (Int.add_zero _).symm, fun he => absurd he (Nat.succ_ne_zero _).symm⟩

/-- Every other server answered "success" to the `msg_send` among these events. -/
def AllSucceeded (c : Setup) (es : List Event) : Prop :=
  ∀ n ∈ c.others, .answer .msgSend n (ascii "success") ∈ es

theorem msgSend_successes {c : Setup} {net : Net} (hheard : ∀ n ∈ c.others, net.Heard n)
    (buf : Bytes) (v : Vars) :
    ∃ k : Nat, k ≤ c.others.length ∧ (msgSend c net buf v).1.vars.count = v.count + k ∧
      (k = c.others.length → AllSucceeded c (msgSend c net buf v).2) := by
  unfold msgSend
  rw [send_eq_visit]
  obtain ⟨k, hk, hcount, hall⟩ :=
    visit_msgBody_count net buf c.others ⟨v, false, net.stack, 0⟩ hheard
  exact ⟨k, hk, hcount, fun he n hn => List.mem_append_right _ (hall he n hn)⟩

/-- A message does not meet successes of an earlier round: where it starts a round, `count` and
the other servers together are no more than `server_len-1`, and each server is heard; where it is
any other message, there is another server. -/
def FreshRound (c : Setup) (v : Vars) (inp : Input) : Prop :=
  ∀ i r o, inp = .read i r o → v.running = true → r ≠ some [] →
    (commandOf c (textOf v r) = .userSetConfig →
      v.count + c.others.length ≤ c.serverLen - 1 ∧ ∀ n ∈ c.others, o.msgNet.Heard n) ∧
    (commandOf c (textOf v r) ≠ .userSetConfig → 2 ≤ c.serverLen)

/-- The round of one message: activation needs an answer from every other server. -/
theorem handle_unanimous {c : Setup} {o : Outcomes} {i : Int} {v : Vars}
    (h : commandOf c (cstr v.buffer) = .userSetConfig)
    (hcount : v.count + c.others.length ≤ c.serverLen - 1)
    (hheard : ∀ n ∈ c.others, o.msgNet.Heard n) {e : Event}
    (he : e ∈ (handle c o i v).events) (ha : e.IsActivation) :
    AllSucceeded c (handle c o i v).events := by
  rw [handle_user h] at he ⊢
  obtain ⟨_, _, hsender⟩ := userSetConfig_spec c o v
  rcases Done.mem_andThen.mp he with he | ⟨_, he⟩
  · exact absurd ha (hsender e he).not_activation
  · have hw := gates_activation he ha
    intro n hn
    refine Done.mem_andThen.mpr (Or.inl ?_)
    have hpos : 0 < c.others.length := List.length_pos_of_mem hn
    have hl : c.serverLen > 1 := by
      by_contra halone
      rw [others_eq_nil halone] at hpos
      exact absurd hpos (Nat.lt_irrefl 0)
    unfold userSetConfig at hw ⊢
    rw [if_pos hl] at hw ⊢
    obtain ⟨k, hk, hsend, hall⟩ := msgSend_successes hheard controllerCmd v
    -- `count` was no more than the servers short of it, so each of them added one
    have hsum : v.count + k = c.serverLen - 1 := hsend.symm.trans hw
    exact hall (by omega) n hn

/-- **Activation needs a unanimous round**, over every run whose rounds start fresh. -/
theorem activation_unanimous (c : Setup) (v₀ : Vars) (h₀ : v₀.Start c) (is : List Input)
    (hfresh : ∀ t ∈ trace (step c) v₀ is, FreshRound c t.before t.input) :
    ∀ t ∈ trace (step c) v₀ is, (∃ e ∈ t.events, e.IsActivation) →
      (∃ i, Requests c t.before i t.input) ∧ AllSucceeded c t.events := by
  have hstep : ∀ v inp, Between c v → FreshRound c v inp →
      Between c (step c v inp).1 ∧ ((∃ e ∈ (step c v inp).2, e.IsActivation) →
        (∃ i, Requests c v i inp) ∧ AllSucceeded c (step c v inp).2) := by
    intro v inp hv hf
    refine ⟨step_settled hv inp, ?_⟩
    rintro ⟨e, he, ha⟩
    obtain ⟨i, r, o, rfl, hrun, hr, he⟩ := notPlain_of_mem_step he fun hp => hp.not_activation ha
    obtain ⟨huser, hother⟩ := hf i r o rfl hrun hr
    rw [step_message hrun hr]
    by_cases hcmd : commandOf c (textOf v r) = .userSetConfig
    · obtain ⟨hcount, hheard⟩ := huser hcmd
      refine ⟨⟨i, r, o, rfl, hr, hcmd⟩, fun n hn => List.mem_cons_of_mem _ ?_⟩
      exact handle_unanimous (v := afterRead v r) hcmd hcount hheard he ha n hn
    · have hs : Settled c (afterRead v r) := (hv hrun).of_same ⟨rfl, rfl, rfl, rfl⟩
      exact absurd ha (handle_plain (hother hcmd) hs hcmd he).not_activation
  exact forall_trace (P := fun v inp es => (∃ e ∈ es, e.IsActivation) →
    (∃ i, Requests c v i inp) ∧ AllSucceeded c es)
    hstep is v₀ h₀.between hfresh

/-- Three servers, two requests: the first other server answers "success" to each, and the second
request activates. -/
def twoRequests : List (Taken Vars Input Event) :=
  trace (step (threeServers sampleJson)) (startVars (some sampleConfig))
    [.accept 4, userInput 4, userInput 4]

/-- The third server is never asked. -/
theorem activation_not_unanimous :
    (startVars (some sampleConfig)).Start (threeServers sampleJson) ∧
      ∃ t ∈ twoRequests, (∃ e ∈ t.events, e.IsActivation) ∧
        ¬ AllSucceeded (threeServers sampleJson) t.events := by
  refine ⟨startVars_start _ _ _ _, _, List.mem_cons_of_mem _ (List.mem_cons_of_mem _
    List.mem_cons_self), ?_, fun h => ?_⟩
  · exact ⟨.launch .vrdInsmod moduleCmd 0, by decide +kernel, .vrdInsmod, moduleCmd, 0, rfl,
      by decide, by decide⟩
  · exact absurd (h 2 (by decide)) (by decide +kernel)

/-- The controller of two servers after its client was accepted. -/
def accepted : Vars := (step (twoServers sampleJson) (startVars (some sampleConfig)) (.accept 4)).1

/-- Its request activates, and it has the other server's answer. -/
theorem activation_unanimous_two :
    (∃ e ∈ (step (twoServers sampleJson) accepted (userInput 4)).2, e.IsActivation) ∧
      AllSucceeded (twoServers sampleJson)
        (step (twoServers sampleJson) accepted (userInput 4)).2 := by
  have hact : ∃ e ∈ (step (twoServers sampleJson) accepted (userInput 4)).2, e.IsActivation :=
    ⟨.launch .vrdInsmod moduleCmd 0, by decide +kernel, .vrdInsmod, moduleCmd, 0, rfl, by decide,
      by decide⟩
  refine ⟨hact, (activation_unanimous (twoServers sampleJson) (startVars (some sampleConfig))
    (startVars_start _ _ _ _) [.accept 4, userInput 4] ?_ ⟨accepted, userInput 4, _⟩
    (List.mem_cons_of_mem _ List.mem_cons_self) hact).2⟩
  refine List.forall_mem_cons.mpr ⟨?_, List.forall_mem_cons.mpr ⟨?_, fun _ h => ?_⟩⟩
  · rintro i r o ⟨⟩
  · rintro i r o ⟨⟩ _ _
    exact ⟨fun _ => ⟨by decide, fun _ _ => Or.inl (Option.some_ne_none _)⟩, fun h => by decide⟩
  · exact absurd h List.not_mem_nil

/-! ## Verdicts -/

/-- Each `USER_SET_CONFIG` comes from the connection accepted last, and with no other server no
other message comes at all. -/
def FromLastAccepted (c : Setup) (v : Vars) (inp : Input) : Prop :=
  ∀ i r o, inp = .read i r o → v.running = true → r ≠ some [] →
    (commandOf c (textOf v r) = .userSetConfig → v.clientSock = i) ∧
    (commandOf c (textOf v r) ≠ .userSetConfig → 2 ≤ c.serverLen)

/-- The verdicts of one round go to `client_sock`. -/
theorem handle_verdict {c : Setup} {o : Outcomes} {i : Int} {v : Vars}
    (h : commandOf c (cstr v.buffer) = .userSetConfig) {fd : Int} {msg : Bytes}
    (he : .verdict fd msg ∈ (handle c o i v).events) : fd = v.clientSock := by
  rw [handle_user h] at he
  obtain ⟨_, ⟨_, hsock⟩, hsender⟩ := userSetConfig_spec c o v
  rcases Done.mem_andThen.mp he with he | ⟨_, he⟩
  · exact absurd ⟨fd, msg, rfl⟩ (hsender _ he).not_verdict
  · exact (gates_verdict he).trans hsock

/-- **Verdicts reach the requester**, over every run whose requests come from the connection
accepted last. -/
theorem verdict_to_requester (c : Setup) (v₀ : Vars) (h₀ : v₀.Start c) (is : List Input)
    (hlast : ∀ t ∈ trace (step c) v₀ is, FromLastAccepted c t.before t.input) :
    ∀ t ∈ trace (step c) v₀ is, ∀ fd msg, .verdict fd msg ∈ t.events →
      Requests c t.before fd t.input := by
  have hstep : ∀ v inp, Between c v → FromLastAccepted c v inp →
      Between c (step c v inp).1 ∧ ∀ fd msg, .verdict fd msg ∈ (step c v inp).2 →
        Requests c v fd inp := by
    intro v inp hv hf
    refine ⟨step_settled hv inp, fun fd msg he => ?_⟩
    obtain ⟨i, r, o, rfl, hrun, hr, he⟩ :=
      notPlain_of_mem_step he fun hp => hp.not_verdict ⟨fd, msg, rfl⟩
    obtain ⟨huser, hother⟩ := hf i r o rfl hrun hr
    by_cases hcmd : commandOf c (textOf v r) = .userSetConfig
    · have hfd : fd = v.clientSock := handle_verdict (v := afterRead v r) hcmd he
      exact ⟨r, o, by rw [hfd, huser hcmd], hr, hcmd⟩
    · have hs : Settled c (afterRead v r) := (hv hrun).of_same ⟨rfl, rfl, rfl, rfl⟩
      exact absurd ⟨fd, msg, rfl⟩ (handle_plain (hother hcmd) hs hcmd he).not_verdict
  exact forall_trace
    (P := fun v inp es => ∀ fd msg, Event.verdict fd msg ∈ es → Requests c v fd inp)
    hstep is v₀ h₀.between hlast

/-- A connection 4 is accepted, then 5, then 4 asks. -/
def askedFirst : List (Taken Vars Input Event) :=
  trace (step (twoServers sampleJson)) (startVars (some sampleConfig))
    [.accept 4, .accept 5, userInput 4]

/-- The verdict goes to 5. -/
theorem verdict_to_other :
    (startVars (some sampleConfig)).Start (twoServers sampleJson) ∧
      ∃ t ∈ askedFirst, ∃ msg, .verdict 5 msg ∈ t.events ∧
        ¬ Requests (twoServers sampleJson) t.before 5 t.input := by
  refine ⟨startVars_start _ _ _ _, _, List.mem_cons_of_mem _ (List.mem_cons_of_mem _
    List.mem_cons_self), ascii "success", by decide +kernel, ?_⟩
  rintro ⟨r, o, h, _⟩
  cases h

/-- With one connection the verdict goes to it. -/
theorem verdict_to_requester_two :
    .verdict 4 (ascii "success") ∈ (step (twoServers sampleJson) accepted (userInput 4)).2 ∧
      Requests (twoServers sampleJson) accepted 4 (userInput 4) := by
  have hv : .verdict 4 (ascii "success") ∈
      (step (twoServers sampleJson) accepted (userInput 4)).2 := by decide +kernel
  refine ⟨hv, verdict_to_requester (twoServers sampleJson) (startVars (some sampleConfig))
    (startVars_start _ _ _ _) [.accept 4, userInput 4] ?_ ⟨accepted, userInput 4, _⟩
    (List.mem_cons_of_mem _ List.mem_cons_self) 4 (ascii "success") hv⟩
  refine List.forall_mem_cons.mpr ⟨?_, List.forall_mem_cons.mpr ⟨?_, fun _ h => ?_⟩⟩
  · rintro i r o ⟨⟩
  · rintro i r o ⟨⟩ _ _
    exact ⟨fun _ => rfl, fun h => by decide⟩
  · exact absurd h List.not_mem_nil

end JcmController.Controller
