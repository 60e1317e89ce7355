import JcmController.Controller.Handled
import JcmController.Controller.Malformed

/-!
# The counters and the flag over a run

`count` and `nbd_count` go up with what the senders find in `buffer` after their reads and are set
to zero by the gates. So over a run nothing that was counted is lost or spent twice: each activation
takes `server_len-1` of the successes, and each "success" told to a client `server_len-1` of the
acknowledgements. A failed read leaves the last text in `buffer`, which is counted once more: what
is counted need not have been answered.

* `gates_state`: what the gates make of the counters and of `success_flag`.
* `step_conserves`: one step.
* **`answers_conserved`**: over every run of a controller that is still alive, the successes counted
  are those in `count` and those of the activations, and the acknowledgements counted those in
  `nbd_count` and those of the "success" verdicts.
* **`configuration_frozen`**: from a "success" on, over every run, `dmbd_config`, `nbd_config` and
  `success_flag` stay what they are, and no command of the configuration handler is run.
-/

namespace JcmController.Controller

open JcmController.Lib

/-! ## The gates -/

/-- The first gate sets `count` back, and `success_flag` is not its business. -/
theorem countGate_flags {c : Setup} {o : Outcomes} {v : Vars}
    (hr : v.count = c.serverLen - 1 → Readable c v) :
    (countGate c o v).state.count = (if v.count = c.serverLen - 1 then 0 else v.count) ∧
      (countGate c o v).state.successFlag = v.successFlag := by
  by_cases hc : v.count = c.serverLen - 1
  · unfold countGate
    rw [if_pos hc, if_pos hc]
    obtain ⟨remote, hrem⟩ := withRemote_readable (hr hc) fun remote =>
      .ok { (loadDisk c o (activate c o remote 0 v).1).1 with count := 0 }
        ((activate c o remote 0 v).2 ++ (loadDisk c o (activate c o remote 0 v).1).2)
    obtain ⟨cmd, ha⟩ := (activate_keeps c o remote 0 v).1
    have hd := loadDisk_state (c := c) (o := o) (v := { v with bestioCmd := cmd }) hc
    rw [hrem, ha, hd]
    exact ⟨rfl, rfl⟩
  · rw [countGate_ne hc, if_neg hc]
    exact ⟨rfl, rfl⟩

/-- The second gate, where it can read the file. -/
theorem nbdGate_flags {c : Setup} {v : Vars} (hr : v.nbdCount = c.serverLen - 1 → Readable c v) :
    (nbdGate c v).exit = .go ∧ (nbdGate c v).state.count = v.count ∧
      (nbdGate c v).state.nbdCount = (if v.nbdCount = c.serverLen - 1 then 0 else v.nbdCount) ∧
      (nbdGate c v).state.successFlag =
        (if v.nbdCount = c.serverLen - 1 then 1 else v.successFlag) := by
  by_cases hl : v.nbdCount = c.serverLen - 1
  · rw [nbdGate_eq hl (hr hl), if_pos hl, if_pos hl]
    exact ⟨rfl, rfl, rfl, rfl⟩
  · rw [nbdGate_ne hl, if_neg hl, if_neg hl]
    exact ⟨rfl, rfl, rfl, rfl⟩

theorem unsuccessGate_flags (v : Vars) :
    (unsuccessGate v).state.count = v.count ∧ (unsuccessGate v).state.nbdCount = v.nbdCount ∧
      (unsuccessGate v).state.successFlag = v.successFlag :=
  ⟨(unsuccessGate_spec v).1, (unsuccessGate_spec v).2.1, (unsuccessGate_file v).2.successFlag⟩

/-- **What the gates make of the counters**, where they can read the file. -/
theorem gates_state {c : Setup} {o : Outcomes} {v : Vars} (hr : Asks c o v → Readable c v) :
    (gates c o v).exit = .go ∧
      (gates c o v).state.count = (if v.count = c.serverLen - 1 then 0 else v.count) ∧
      (gates c o v).state.nbdCount =
        (if Loaded c o v then 0 else v.nbdCount + loadsHeard c o v) ∧
      (gates c o v).state.successFlag = (if Loaded c o v then 1 else v.successFlag) := by
  obtain ⟨hgo, hnbd, _, hfile⟩ := countGate_spec (o := o) fun hc => hr (Or.inl hc)
  obtain ⟨hcount, hflag⟩ := countGate_flags (o := o) fun hc => hr (Or.inl hc)
  have hread : (countGate c o v).state.nbdCount = c.serverLen - 1 →
      Readable c (countGate c o v).state := by
    intro hl
    have hv : Readable c v := hr (Or.inr (hnbd.symm.trans hl))
    unfold Readable at hv ⊢
    rwa [hfile]
  obtain ⟨hgo', hcount', hnbd', hflag'⟩ := nbdGate_flags hread
  have hseq : ((countGate c o v).andThen (nbdGate c)).exit = .go := by
    rw [Done.andThen_go hgo]
    exact hgo'
  obtain ⟨hcount'', hnbd'', hflag''⟩ :=
    unsuccessGate_flags (nbdGate c (countGate c o v).state).state
  unfold gates
  rw [Done.andThen_go hseq, Done.andThen_go hgo]
  refine ⟨unsuccessGate_go _, hcount''.trans (hcount'.trans hcount), ?_, ?_⟩
  · refine hnbd''.trans (hnbd'.trans ?_)
    rw [hnbd]
    rfl
  · refine hflag''.trans (hflag'.trans ?_)
    rw [hnbd, hflag]
    rfl

/-- The command that loads the disk's module is the first gate's, once. -/
theorem loadDisk_launches (c : Setup) (o : Outcomes) (v : Vars) :
    launches .vrdInsmod (loadDisk c o v).2 = [(moduleCmd, o.vrdInsmod)] := by
  unfold loadDisk
  by_cases hl : o.vrdInsmod = 0 ∧ v.count ≠ 0
  · have hnone : launches .vrdInsmod (nbdMsgSend c o.nbdNet nbdClientMsg v).2 = [] :=
      launches_eq_nil fun _ _ he => (nbdMsgSend_keeps c o.nbdNet nbdClientMsg v).2 _ he
    rw [if_pos hl]
    show launches .vrdInsmod ([_] ++ _) = _
    rw [launches_append, hnone]
    rfl
  · rw [if_neg hl]
    rfl

theorem activate_launches_vrd (c : Setup) (o : Outcomes) :
    ∀ (rs : List DmbdConfigRemote) (n : Nat) (v : Vars),
      launches .vrdInsmod (activate c o rs n v).2 = []
  | [], _, _ => rfl
  | r :: rs, n, v => by
    obtain ⟨w, hw⟩ := activate_cons c o r rs n v
    rw [hw, ← List.singleton_append, launches_append, activate_launches_vrd c o rs (n + 1) w,
      List.append_nil]
    unfold activationEvent
    by_cases hip : ipOf (r :: rs) = c.myNode.ip
    · rw [if_pos hip]
      rfl
    · rw [if_neg hip]
      rfl

/-- The activations among events. -/
def activations (es : List Event) : Nat := (launches .vrdInsmod es).length

theorem activations_append (es es' : List Event) :
    activations (es ++ es') = activations es + activations es' := by
  unfold activations
  rw [launches_append, List.length_append]

theorem activations_none {es : List Event} (h : ∀ e ∈ es, ¬ e.IsActivation) :
    activations es = 0 := by
  unfold activations
  rw [List.length_eq_zero_iff]
  exact launches_eq_nil fun _ _ he => h _ he ⟨_, _, _, rfl, by decide, by decide⟩

/-- The gates activate where `count` is complete. -/
theorem activations_gates {c : Setup} {o : Outcomes} {v : Vars} (hr : Asks c o v → Readable c v) :
    activations (gates c o v).events = if v.count = c.serverLen - 1 then 1 else 0 := by
  obtain ⟨hgo, hnbd, _, hfile⟩ := countGate_spec (o := o) fun hc => hr (Or.inl hc)
  have hlast : ∀ w : Vars, activations (unsuccessGate w).events = 0 := by
    refine fun w => activations_none fun e he => ?_
    rw [mem_unsuccessGate he]
    rintro ⟨_, _, _, h, _⟩
    cases h
  have hsecond : ∀ w : Vars, activations (nbdGate c w).events = 0 := by
    refine fun w => activations_none fun e he => ?_
    rw [mem_nbdGate he]
    rintro ⟨_, _, _, h, _⟩
    cases h
  have hfirst : activations (gates c o v).events = activations (countGate c o v).events := by
    unfold gates
    by_cases hseq : ((countGate c o v).andThen (nbdGate c)).exit = .go
    · rw [Done.andThen_go hseq, activations_append, hlast, Done.andThen_go hgo,
        activations_append, hsecond]
      rfl
    · rw [Done.andThen_stop hseq, Done.andThen_go hgo, activations_append, hsecond]
      rfl
  rw [hfirst]
  by_cases hc : v.count = c.serverLen - 1
  · obtain ⟨remote, hremote⟩ := Option.isSome_iff_exists.mp (hr (Or.inl hc))
    obtain ⟨cmd, hevents⟩ := countGate_events (o := o) hc hremote
    unfold activations
    rw [if_pos hc, hevents, launches_append, activate_launches_vrd, loadDisk_launches]
    rfl
  · rw [if_neg hc, countGate_ne hc]
    rfl

/-- "success" told to the client. -/
def successesTold (es : List Event) : Nat := (verdicts es).count (ascii "success")

theorem successesTold_append (es es' : List Event) :
    successesTold (es ++ es') = successesTold es + successesTold es' := by
  unfold successesTold
  rw [verdicts_append, List.count_append]

theorem successesTold_none {es : List Event} (h : ∀ e ∈ es, ¬ e.IsVerdict) :
    successesTold es = 0 := by
  unfold successesTold
  rw [verdicts_eq_nil h]
  rfl

theorem successesTold_gates {c : Setup} {o : Outcomes} {v : Vars}
    (hr : Asks c o v → Readable c v) :
    successesTold (gates c o v).events = if Loaded c o v then 1 else 0 := by
  have hne : ascii "unsuccess" ++ [0] ≠ ascii "success" := by decide
  unfold successesTold
  rw [gates_verdicts, if_pos hr, gateVerdicts, List.count_append]
  have hun : (if v.unsuccessFlag = 1 then [ascii "unsuccess" ++ [0]] else []).count
      (ascii "success") = 0 := by
    by_cases hu : v.unsuccessFlag = 1
    · rw [if_pos hu]
      exact List.count_eq_zero.mpr fun h => hne (List.mem_singleton.mp h).symm
    · rw [if_neg hu]
      rfl
  rw [hun]
  by_cases hl : Loaded c o v
  · rw [if_pos hl, if_pos hl]
    rw [List.count_singleton_self]
  · rw [if_neg hl, if_neg hl]
    rfl

/-! ## One step -/

/-- What the handling of an input adds to `count`: one for each server that `msg_send` gets to and
after whose two reads `buffer` says "success". -/
def successesCounted (c : Setup) (v : Vars) : Input → Nat
  | .accept _ => 0
  | .read _ r o =>
    if r ≠ some [] ∧ commandOf c (textOf v r) = .userSetConfig then
      (msgTexts o.msgNet false o.msgNet.stack c.others).count (ascii "success")
    else 0

/-- What it adds to `nbd_count`, in the same way after the one read of `nbd_msg_send`. -/
def acksCounted (c : Setup) (v : Vars) : Input → Nat
  | .accept _ => 0
  | .read i r o =>
    let h := handler c o i (textOf v r) (afterRead v r)
    if r ≠ some [] ∧ h.exit = .go then loadsHeard c o h.state else 0

/-- A handler leaves the gates to do the rest. -/
theorem handler_counts (c : Setup) (o : Outcomes) (i : Int) (v : Vars) :
    (handler c o i (cstr v.buffer) v).state.count = v.count +
        (if commandOf c (cstr v.buffer) = .userSetConfig then
          (msgTexts o.msgNet false o.msgNet.stack c.others).count (ascii "success") else 0 : Nat) ∧
      (handler c o i (cstr v.buffer) v).state.nbdCount = v.nbdCount ∧
      activations (handler c o i (cstr v.buffer) v).events = 0 ∧
      successesTold (handler c o i (cstr v.buffer) v).events = 0 := by
  by_cases hcmd : commandOf c (cstr v.buffer) = .userSetConfig
  · obtain ⟨_, ⟨hnbd, _⟩, hsender⟩ := userSetConfig_spec c o v
    have heq : handler c o i (cstr v.buffer) v = userSetConfig c o v := by
      unfold handler
      rw [hcmd]
    rw [heq, if_pos hcmd]
    refine ⟨?_, hnbd, activations_none fun e he => (hsender e he).not_activation,
      successesTold_none fun e he => (hsender e he).not_verdict⟩
    rw [userSetConfig_state]
    rfl
  · obtain ⟨hround, hplain⟩ := handler_still (o := o) (i := i) (v := v) hcmd
    rw [if_neg hcmd]
    exact ⟨hround.count.trans (Int.add_zero _).symm, hround.nbdCount,
      activations_none fun e he => (hplain e he).not_activation,
      successesTold_none fun e he => (hplain e he).not_verdict⟩

/-- A handler that comes to no end and does not crash was not asked for a round. -/
theorem handler_cont {c : Setup} {o : Outcomes} {i : Int} {v : Vars}
    (h : (handler c o i (cstr v.buffer) v).exit = .cont) :
    commandOf c (cstr v.buffer) ≠ .userSetConfig := by
  intro hcmd
  have heq : handler c o i (cstr v.buffer) v = userSetConfig c o v := by
    unfold handler
    rw [hcmd]
  rw [heq, (userSetConfig_spec c o v).1] at h
  cases h

/-- Gates that do not end the process can read what they ask for. -/
theorem readable_of_gates {c : Setup} {o : Outcomes} {v : Vars}
    (hx : (gates c o v).exit ≠ .crash) (ha : Asks c o v) : Readable c v := by
  by_contra hr
  exact hx ((gates_crash_iff c o v).mpr ⟨ha, hr⟩)

/-- What a message that does not end the process does to the counters. -/
theorem handle_conserves {c : Setup} {o : Outcomes} {i : Int} {v : Vars}
    (hx : (handle c o i v).exit ≠ .crash) :
    (handle c o i v).state.count + (c.serverLen - 1) * activations (handle c o i v).events =
        v.count + (if commandOf c (cstr v.buffer) = .userSetConfig then
          (msgTexts o.msgNet false o.msgNet.stack c.others).count (ascii "success") else 0 : Nat) ∧
      (handle c o i v).state.nbdCount + (c.serverLen - 1) * successesTold (handle c o i v).events =
        v.nbdCount + (if (handler c o i (cstr v.buffer) v).exit = .go then
          loadsHeard c o (handler c o i (cstr v.buffer) v).state else 0 : Nat) := by
  obtain ⟨hcount, hnbd, hact, hsucc⟩ := handler_counts c o i v
  unfold handle at hx ⊢
  by_cases hgo : (handler c o i (cstr v.buffer) v).exit = .go
  · rw [Done.andThen_go hgo] at hx
    have hr := readable_of_gates hx
    obtain ⟨_, hcount', hnbd', _⟩ := gates_state hr
    rw [Done.andThen_go hgo, if_pos hgo, activations_append, successesTold_append, hact, hsucc,
      activations_gates hr, successesTold_gates hr, ← hcount, ← hnbd]
    constructor
    · show (gates c o _).state.count + _ = _
      rw [hcount']
      split_ifs with hc
      · omega
      · omega
    · show (gates c o _).state.nbdCount + _ = _
      rw [hnbd']
      split_ifs with hl
      · have heq : (handler c o i (cstr v.buffer) v).state.nbdCount + loadsHeard c o
            (handler c o i (cstr v.buffer) v).state = c.serverLen - 1 := hl
        omega
      · omega
  · rw [Done.andThen_stop hgo] at hx ⊢
    have hcont : (handler c o i (cstr v.buffer) v).exit = .cont := by
      cases hexit : (handler c o i (cstr v.buffer) v).exit with
      | cont => rfl
      | go => exact absurd hexit hgo
      | crash => exact absurd hexit hx
    rw [hact, hsucc, hcount, hnbd, if_neg hgo]
    exact ⟨by omega, by omega⟩

/-- **One step** that does not end the process. -/
theorem step_conserves {c : Setup} {v : Vars} {inp : Input}
    (hrun : (step c v inp).1.running = true) :
    (step c v inp).1.count + (c.serverLen - 1) * activations (step c v inp).2 =
        v.count + successesCounted c v inp ∧
      (step c v inp).1.nbdCount + (c.serverLen - 1) * successesTold (step c v inp).2 =
        v.nbdCount + acksCounted c v inp := by
  by_cases hv : v.running = true
  · cases inp with
    | accept fd =>
      unfold step serve
      rw [if_pos hv]
      by_cases hfd : fd < 0
      · simp [if_pos hfd, activations, launches, successesTold, verdicts, successesCounted,
          acksCounted]
      · simp [if_neg hfd, activations, launches, successesTold, verdicts, successesCounted,
          acksCounted]
    | read i r o =>
      by_cases hr : r = some []
      · unfold step serve
        rw [if_pos hv]
        simp [hr, activations, launches, successesTold, verdicts, successesCounted, acksCounted]
      · rw [step_message hv hr] at hrun ⊢
        have hx : (handle c o i (afterRead v r)).exit ≠ .crash := of_decide_eq_true hrun
        obtain ⟨hcount, hnbd⟩ := handle_conserves hx
        have hact : ∀ es, activations (.message i (textOf v r) :: es) = activations es :=
          fun _ => rfl
        have hsucc : ∀ es, successesTold (.message i (textOf v r) :: es) = successesTold es :=
          fun _ => rfl
        rw [hact, hsucc]
        refine ⟨hcount.trans ?_, hnbd.trans ?_⟩
        · simp only [successesCounted, ne_eq, hr, not_false_eq_true, true_and]
          rfl
        · simp only [acksCounted, ne_eq, hr, not_false_eq_true, true_and]
          rfl
  · rw [step_dead hv] at hrun
    exact absurd hrun hv

theorem running_of_step {c : Setup} {v : Vars} {inp : Input}
    (h : (step c v inp).1.running = true) : v.running = true := by
  by_contra hv
  rw [step_dead hv] at h
  exact hv h

/-! ## Runs -/

/-- **Nothing that was counted is lost or spent twice.** Over every run of a controller that is
still alive at its end, the successes its requests counted are those still in `count` and
`server_len-1` for each activation, and the acknowledgements counted those still in `nbd_count` and
`server_len-1` for each "success" that it told a client. -/
theorem answers_conserved (c : Setup) (v₀ : Vars) (h₀ : v₀.Start c) (is : List Input)
    (hrun : (final (step c) v₀ is).running = true) :
    (final (step c) v₀ is).count +
        ((trace (step c) v₀ is).map fun t => (c.serverLen - 1) * activations t.events).sum =
      ((trace (step c) v₀ is).map fun t => (successesCounted c t.before t.input : Int)).sum ∧
    (final (step c) v₀ is).nbdCount +
        ((trace (step c) v₀ is).map fun t => (c.serverLen - 1) * successesTold t.events).sum =
      ((trace (step c) v₀ is).map fun t => (acksCounted c t.before t.input : Int)).sum := by
  have hback : ∀ (v : Vars) (inp : Input), (step c v inp).1.running = true → v.running = true :=
    fun _ _ => running_of_step
  have hsuccesses : ∀ (v : Vars) (inp : Input), (step c v inp).1.running = true →
      (step c v inp).1.count + (c.serverLen - 1) * activations (step c v inp).2 =
        v.count + successesCounted c v inp := fun _ _ h => (step_conserves h).1
  have hacks : ∀ (v : Vars) (inp : Input), (step c v inp).1.running = true →
      (step c v inp).1.nbdCount + (c.serverLen - 1) * successesTold (step c v inp).2 =
        v.nbdCount + acksCounted c v inp := fun _ _ h => (step_conserves h).2
  have hcount := (final_conserves (fun v => v.running = true) Vars.count
    (fun t => (successesCounted c t.before t.input : Int))
    (fun t => (c.serverLen - 1) * activations t.events) hback hsuccesses is v₀ hrun).2
  have hnbd := (final_conserves (fun v => v.running = true) Vars.nbdCount
    (fun t => (acksCounted c t.before t.input : Int))
    (fun t => (c.serverLen - 1) * successesTold t.events) hback hacks is v₀ hrun).2
  rw [h₀.count, Int.zero_add] at hcount
  rw [h₀.nbdCount, Int.zero_add] at hnbd
  exact ⟨hcount, hnbd⟩

/-- A client asks a controller of two servers twice, and everything answers. -/
def askedTwice : List Input := [.accept 4, userInput 4, userInput 4]

theorem answers_conserved_twice :
    ((trace (step (twoServers sampleJson)) (startVars (some sampleConfig)) askedTwice).map
        fun t => activations t.events) = [0, 1, 1] ∧
      (final (step (twoServers sampleJson)) (startVars (some sampleConfig)) askedTwice).count +
          ((trace (step (twoServers sampleJson)) (startVars (some sampleConfig)) askedTwice).map
            fun t => ((twoServers sampleJson).serverLen - 1) * activations t.events).sum =
        ((trace (step (twoServers sampleJson)) (startVars (some sampleConfig)) askedTwice).map
          fun t => (successesCounted (twoServers sampleJson) t.before t.input : Int)).sum :=
  ⟨by decide +kernel, (answers_conserved (twoServers sampleJson) (startVars (some sampleConfig))
    (startVars_start _ _ _ _) askedTwice (by decide +kernel)).1⟩

/-! ## After a "success" -/

/-- The two files and the flag of a round are the same. -/
structure SameFiles (v w : Vars) : Prop where
  dmbdConfig : w.dmbdConfig = v.dmbdConfig
  nbdConfig : w.nbdConfig = v.nbdConfig
  successFlag : w.successFlag = v.successFlag

theorem SameFiles.refl (v : Vars) : SameFiles v v := ⟨rfl, rfl, rfl⟩

theorem mountHandler_files (c : Setup) (o : Outcomes) (myobj : Option Json) (v : Vars) :
    SameFiles v (mountHandler c o myobj v).state ∧ NoCommand (mountHandler c o myobj v).events := by
  have hkeeps : (mountHandler c o myobj v).Keeps (SameFiles v)
      fun e => ∀ site cmd ret, e ≠ .launch site cmd ret := by
    refine mountHandler_keeps (SameFiles.refl v) (fun _ => ⟨rfl, rfl, rfl⟩)
      (fun _ _ _ _ _ => Event.noConfusion) (fun _ _ _ _ _ _ _ => Event.noConfusion)
      (fun _ _ _ => Event.noConfusion) (fun _ _ _ => Event.noConfusion) fun w hw => ⟨?_, ?_⟩
    · rwa [mountMsgSend_vars]
    · rintro e he site cmd ret rfl
      exact noCommand_ofSender (send_ofSender (fun _ _ => mountBody_ofBody) _) site cmd ret he
  exact ⟨hkeeps.1, fun site cmd ret he => hkeeps.2 _ he site cmd ret rfl⟩

/-- **Only a configuration is written to the files**, and only it runs a command: no other handler
touches them, nor `success_flag`. -/
theorem handler_files {c : Setup} {o : Outcomes} {i : Int} {v : Vars}
    (h : commandOf c (cstr v.buffer) ≠ .setConfig) :
    SameFiles v (handler c o i (cstr v.buffer) v).state ∧
      NoCommand (handler c o i (cstr v.buffer) v).events := by
  have hnil : NoCommand [] := fun _ _ _ he => absurd he List.not_mem_nil
  unfold handler
  cases hc : commandOf c (cstr v.buffer) with
  | setConfig => exact absurd hc h
  | userSetConfig =>
    refine ⟨?_, noCommand_ofSender (userSetConfig_spec c o v).2.2⟩
    show SameFiles v (userSetConfig c o v).state
    rw [userSetConfig_state]
    exact ⟨rfl, rfl, rfl⟩
  | controllerSetConfig =>
    exact ⟨SameFiles.refl v, by simp [NoCommand, controllerSetConfig, Done.ok]⟩
  | mount => exact mountHandler_files c o _ v
  | mountSetOn =>
    have hkeeps : (mountSetOn c o (c.json.tokenerParse (cstr v.buffer)) v).Keeps (SameFiles v)
        fun e => ∀ site cmd ret, e ≠ .launch site cmd ret :=
      printMountFile_keeps (SameFiles.refl v) (fun _ => ⟨rfl, rfl, rfl⟩)
        (fun _ _ _ => Event.noConfusion) fun _ _ _ => Event.noConfusion
    exact ⟨hkeeps.1, fun site cmd ret he => hkeeps.2 _ he site cmd ret rfl⟩
  | nbdSetOn =>
    show SameFiles v (nbdSetOn c i v).state ∧ NoCommand (nbdSetOn c i v).events
    by_cases hr : Readable c v
    · rw [nbdSetOn_readable hr]
      exact ⟨SameFiles.refl v, by simp [NoCommand, Done.ok]⟩
    · rw [nbdSetOn_unreadable hr]
      exact ⟨SameFiles.refl v, hnil⟩
  | unknown => exact ⟨SameFiles.refl v, hnil⟩

/-- The gates do not take `success_flag` back. -/
theorem gates_flag {c : Setup} {o : Outcomes} {v : Vars} (h : v.successFlag = 1) :
    (gates c o v).state.successFlag = 1 := by
  have hcount : Done.Keeps (fun w => w.successFlag = 1) (fun _ => True) (countGate c o v) := by
    unfold countGate
    by_cases hc : v.count = c.serverLen - 1
    · rw [if_pos hc]
      refine withRemote_keeps h fun remote => ⟨?_, fun _ _ => trivial⟩
      obtain ⟨cmd, ha⟩ := (activate_keeps c o remote 0 v).1
      show (loadDisk c o (activate c o remote 0 v).1).1.successFlag = 1
      rw [ha, loadDisk_state (v := { v with bestioCmd := cmd }) hc]
      exact h
    · rw [if_neg hc]
      exact ⟨h, fun _ _ => trivial⟩
  have hnbd : ∀ w : Vars, w.successFlag = 1 →
      Done.Keeps (fun w => w.successFlag = 1) (fun _ => True) (nbdGate c w) := by
    intro w hw
    unfold nbdGate
    split_ifs with hl
    · exact withRemote_keeps hw fun _ => ⟨rfl, fun _ _ => trivial⟩
    · exact ⟨hw, fun _ _ => trivial⟩
  have hlast : ∀ w : Vars, w.successFlag = 1 →
      Done.Keeps (fun w => w.successFlag = 1) (fun _ => True) (unsuccessGate w) := fun w hw =>
    ⟨(unsuccessGate_file w).2.successFlag.trans hw, fun _ _ => trivial⟩
  exact ((hcount.andThen fun hw => hnbd _ hw).andThen fun hw => hlast _ hw).1

/-- The step is not part of a configuration: it runs neither its `insmod` nor `nbd-server`. -/
def NotServing (es : List Event) : Prop :=
  ∀ cmd ret, .launch .configInsmod cmd ret ∉ es ∧ .launch .nbdServer cmd ret ∉ es

/-- A message after a "success". -/
theorem handle_frozen {c : Setup} {o : Outcomes} {i : Int} {v : Vars} (h : v.successFlag = 1) :
    SameFiles v (handle c o i v).state ∧ NotServing (handle c o i v).events := by
  by_cases hcmd : commandOf c (cstr v.buffer) = .setConfig
  · have hstop : setConfig c o i v = ⟨v, [], .cont⟩ := if_pos h
    rw [handle_setConfig hcmd, hstop, Done.andThen_stop Exit.noConfusion]
    exact ⟨SameFiles.refl v, fun _ _ => ⟨List.not_mem_nil, List.not_mem_nil⟩⟩
  · obtain ⟨hfiles, hnone⟩ := handler_files (o := o) (i := i) hcmd
    have hflag : (handler c o i (cstr v.buffer) v).state.successFlag = 1 :=
      hfiles.successFlag.trans h
    unfold handle
    by_cases hgo : (handler c o i (cstr v.buffer) v).exit = .go
    · have hframe := gates_frame c o (handler c o i (cstr v.buffer) v).state
      obtain ⟨_, hsites⟩ := gates_unserved c o (handler c o i (cstr v.buffer) v).state
      rw [Done.andThen_go hgo]
      refine ⟨⟨hframe.dmbdConfig.trans hfiles.dmbdConfig, hframe.nbdConfig.trans hfiles.nbdConfig,
        (gates_flag hflag).trans h.symm⟩, fun cmd ret => ⟨fun he => ?_, fun he => ?_⟩⟩
      · rcases List.mem_append.mp he with he | he
        · exact hnone _ _ _ he
        · exact (hsites _ he cmd ret).1 rfl
      · rcases List.mem_append.mp he with he | he
        · exact hnone _ _ _ he
        · exact (hsites _ he cmd ret).2 rfl
    · rw [Done.andThen_stop hgo]
      exact ⟨hfiles, fun cmd ret => ⟨hnone _ _ _, hnone _ _ _⟩⟩

/-- **One step** after a "success". -/
theorem step_frozen {c : Setup} {v : Vars} (h : v.successFlag = 1) (inp : Input) :
    SameFiles v (step c v inp).1 ∧ NotServing (step c v inp).2 := by
  have hnil : NotServing [] := fun _ _ => ⟨List.not_mem_nil, List.not_mem_nil⟩
  by_cases hv : v.running = true
  · cases inp with
    | accept fd =>
      unfold step serve
      rw [if_pos hv]
      by_cases hfd : fd < 0
      · simp only [if_pos hfd]
        exact ⟨⟨rfl, rfl, rfl⟩, hnil⟩
      · simp only [if_neg hfd]
        exact ⟨⟨rfl, rfl, rfl⟩, by simp [NotServing]⟩
    | read i r o =>
      by_cases hr : r = some []
      · unfold step serve
        rw [if_pos hv]
        simp only [if_pos hr]
        exact ⟨⟨rfl, rfl, rfl⟩, by simp [NotServing]⟩
      · obtain ⟨hfiles, hnone⟩ := handle_frozen (c := c) (o := o) (i := i)
          (v := afterRead v r) h
        rw [step_message hv hr]
        refine ⟨⟨hfiles.dmbdConfig, hfiles.nbdConfig, hfiles.successFlag⟩, fun cmd ret => ?_⟩
        simpa using hnone cmd ret
  · rw [step_dead hv]
    exact ⟨SameFiles.refl v, hnil⟩

/-- **A controller that has told "success" keeps its configuration**: over every run from there,
with any messages and outcomes, `dmbd_config`, `nbd_config` and `success_flag` stay what they are,
and neither the `insmod` of a configuration nor `nbd-server` is run again. -/
theorem configuration_frozen (c : Setup) (v₀ : Vars) (before after : List Input)
    (h : (final (step c) v₀ before).successFlag = 1) :
    SameFiles (final (step c) v₀ before) (final (step c) v₀ (before ++ after)) ∧
      ∀ t ∈ trace (step c) (final (step c) v₀ before) after, NotServing t.events := by
  have hstep : ∀ (w : Vars) (inp : Input), SameFiles (final (step c) v₀ before) w → True →
      SameFiles (final (step c) v₀ before) (step c w inp).1 ∧ NotServing (step c w inp).2 := by
    intro w inp hw _
    obtain ⟨hfiles, hnone⟩ := step_frozen (c := c) (hw.successFlag.trans h) inp
    exact ⟨⟨hfiles.dmbdConfig.trans hw.dmbdConfig, hfiles.nbdConfig.trans hw.nbdConfig,
      hfiles.successFlag.trans hw.successFlag⟩, hnone⟩
  rw [final_append]
  refine ⟨final_inv (C := fun _ _ => True) (fun w inp hw hC => (hstep w inp hw hC).1) after _
    (SameFiles.refl _) fun _ _ => trivial, ?_⟩
  exact forall_trace (P := fun _ _ es => NotServing es) hstep after _ (SameFiles.refl _)
    fun _ _ => trivial

/-- After a round a controller is sent another configuration. -/
theorem configuration_frozen_two :
    (final (step (twoServers sampleJson)) (startVars (some sampleConfig))
        ([.accept 4, userInput 4] ++ [.read 4 (some (ascii "\x7b\x7d")) allOk])).dmbdConfig =
      some sampleConfig := by
  have hfrozen := (configuration_frozen (twoServers sampleJson) (startVars (some sampleConfig))
    [.accept 4, userInput 4] [.read 4 (some (ascii "\x7b\x7d")) allOk] (by decide +kernel)).1
  refine hfrozen.dmbdConfig.trans ?_
  decide +kernel

end JcmController.Controller
