import JcmController.Controller.Stalls

/-!
# Messages that no handler is for

A text without `cmd_type` is taken for a configuration, whatever it is, and `dmbd_config` is
written before the text is parsed. A text with another `cmd_type` has no handler, but the gates
come after it. A read that fails leaves the last message in `buffer`, and it is handled again: on a
connection that was reset its answer raises `SIGPIPE`.

* `LeavesAlone` is said of a statement: the files, counters and flags stay, no command is run, and
  the process goes on.
* `gates_act`, `setConfig_acts`: who cannot.
* **`handle_leaves_iff`**: between messages, when a message of any kind leaves the state alone.
* **`malformed_leaves_iff`**: when one does that no handler is for, over every run and whichever
  calls do not come back.
-/

namespace JcmController.Controller

open JcmController.Lib

/-! ## Leaving the state alone -/

/-- The files, the counters and the flags are the same. -/
structure SameState (v w : Vars) : Prop where
  dmbdConfig : w.dmbdConfig = v.dmbdConfig
  nbdConfig : w.nbdConfig = v.nbdConfig
  mountFile : w.mountFile = v.mountFile
  count : w.count = v.count
  nbdCount : w.nbdCount = v.nbdCount
  successFlag : w.successFlag = v.successFlag
  unsuccessFlag : w.unsuccessFlag = v.unsuccessFlag

theorem SameState.refl (v : Vars) : SameState v v := ⟨rfl, rfl, rfl, rfl, rfl, rfl, rfl⟩

/-- No call of `system`. -/
def NoCommand (es : List Event) : Prop := ∀ site cmd ret, .launch site cmd ret ∉ es

theorem NoCommand.append {es es' : List Event} (h : NoCommand es) (h' : NoCommand es') :
    NoCommand (es ++ es') := by
  intro site cmd ret he
  rcases List.mem_append.mp he with he | he
  · exact h site cmd ret he
  · exact h' site cmd ret he

theorem noCommand_ofSender {es : List Event} (h : ∀ e ∈ es, e.OfSender) : NoCommand es :=
  fun _ _ _ he => h _ he

/-- The statement leaves the state alone, and the process goes on. -/
structure LeavesAlone (v : Vars) (r : Done Vars Event) : Prop where
  state : SameState v r.state
  alive : r.exit ≠ .crash
  noCommand : NoCommand r.events

/-- It ends the process or runs a command. -/
def Acts (r : Done Vars Event) : Prop := r.exit = .crash ∨ ¬ NoCommand r.events

theorem Acts.not_leaves {v : Vars} {r : Done Vars Event} (h : Acts r) : ¬ LeavesAlone v r :=
  fun hr => h.elim hr.alive fun h => h hr.noCommand

/-- What acts does so whatever comes after it. -/
theorem Acts.andThen {r : Done Vars Event} (h : Acts r) (f : Vars → Done Vars Event) :
    Acts (r.andThen f) := by
  rcases h with h | h
  · rw [Done.andThen_stop (h.trans_ne Exit.noConfusion)]
    exact Or.inl h
  · refine Or.inr fun hnone => h fun site cmd ret he => ?_
    exact hnone site cmd ret (Done.mem_andThen.mpr (Or.inl he))

/-- And whatever came before. -/
theorem Acts.of_andThen {r : Done Vars Event} {f : Vars → Done Vars Event} (hgo : r.exit = .go)
    (h : Acts (f r.state)) : Acts (r.andThen f) := by
  rw [Done.andThen_go hgo]
  refine h.imp id fun h hnone => h fun site cmd ret he => ?_
  exact hnone site cmd ret (List.mem_append_right _ he)

/-! ## Who cannot -/

theorem countGate_act {c : Setup} {v : Vars} (h : v.count = c.serverLen - 1) (o : Outcomes) :
    Acts (countGate c o v) := by
  unfold countGate withRemote
  rw [if_pos h]
  cases readDMBDRemote c.json v.dmbdConfig with
  | none => exact Or.inl rfl
  | some remote =>
    refine Or.inr fun hnone => ?_
    exact hnone .vrdInsmod moduleCmd o.vrdInsmod
      (List.mem_append_right _ (mem_loadDisk c o (activate c o remote 0 v).1))

/-- The gates with `count` complete. -/
theorem gates_act {c : Setup} {v : Vars} (h : v.count = c.serverLen - 1) (o : Outcomes) :
    Acts (gates c o v) :=
  ((countGate_act h o).andThen _).andThen _

/-- A controller alone has `count` complete always. -/
theorem count_alone {c : Setup} {v : Vars} (hl : ¬ 2 ≤ c.serverLen) (hz : Uncounted c v) :
    v.count = c.serverLen - 1 := by
  have hlen := others_length_lt c
  have hone : (1 : Int) ≤ c.serverLen := by
    unfold Setup.serverLen
    omega
  rw [hz hl]
  omega

theorem loadConfig_acts (c : Setup) (o : Outcomes) (i : Int) (remote : List DmbdConfigRemote)
    (v : Vars) : Acts (loadConfig c o i remote v) := by
  by_cases hi : o.configInsmod = 0
  · rw [loadConfig_zero hi]
    refine Acts.andThen (Or.inr fun hnone => ?_) _
    rw [loaded_events] at hnone
    exact hnone .configInsmod _ _ (List.mem_append_left _ (List.mem_singleton_self _))
  · rw [loadConfig_nonzero hi]
    exact Or.inr fun hnone => hnone .configInsmod _ _ (List.mem_singleton_self _)

/-- A configuration that is not ignored. -/
theorem setConfig_acts {c : Setup} {o : Outcomes} {i : Int} {v : Vars} (hs : v.successFlag ≠ 1) :
    Acts (setConfig c o i v) := by
  obtain ⟨es, _, heq⟩ := setConfig_stored (c := c) (o := o) hs i
  rw [heq]
  refine Acts.of_andThen rfl ?_
  show Acts (withRemote c (fileRead o v) fun remote => loadConfig c o i remote (fileRead o v))
  unfold withRemote
  cases readDMBDRemote c.json (fileRead o v).dmbdConfig with
  | none => exact Or.inl rfl
  | some remote => exact loadConfig_acts c o i remote (fileRead o v)

/-! ## One message -/

/-- A handler that comes to its end, and the gates after it: they do nothing if there are two
servers. -/
theorem leaves_andThen_gates {c : Setup} {o : Outcomes} {v : Vars} {r : Done Vars Event}
    (hgo : r.exit = .go) (hs : Settled c r.state) (hz : Uncounted c r.state)
    (hnone : NoCommand r.events) :
    LeavesAlone v (r.andThen (gates c o)) ↔ SameState v r.state ∧ 2 ≤ c.serverLen := by
  by_cases hl : 2 ≤ c.serverLen
  · rw [Done.andThen_go hgo, gates_settled hl hs]
    constructor
    · intro h
      exact ⟨h.state, hl⟩
    · intro h
      exact ⟨h.1, Exit.noConfusion, hnone.append fun _ _ _ he => absurd he List.not_mem_nil⟩
  · refine iff_of_false ?_ fun h => hl h.2
    exact (Acts.of_andThen hgo (gates_act (count_alone hl hz) o)).not_leaves

/-- The texts that `msg_send` finds as second answers. -/
def answers (c : Setup) (o : Outcomes) : List Bytes :=
  msgTexts o.msgNet false o.msgNet.stack c.others

/-- What it takes for a message to leave the state alone, between messages. -/
def Harmless (c : Setup) (o : Outcomes) (v : Vars) : Prop :=
  match commandOf c (cstr v.buffer) with
  | .setConfig => v.successFlag = 1
  | .userSetConfig =>
    2 ≤ c.serverLen ∧ ascii "success" ∉ answers c o ∧
      (ascii "unsuccess" ∈ answers c o → v.unsuccessFlag = 0)
  | .controllerSetConfig => 2 ≤ c.serverLen
  | .mount =>
    o.mount < 0 ∨ PrintsMount c o c.myNode.ip ∧
      v.mountFile = fprintf c.junk (mountMsg c.myNode.ip) ∧ 2 ≤ c.serverLen
  | .mountSetOn =>
    PrintsMount c o (dmbdMountIp c (c.json.tokenerParse (cstr v.buffer))) ∧
      v.mountFile = fprintf c.junk
        (mountMsg (dmbdMountIp c (c.json.tokenerParse (cstr v.buffer)))) ∧ 2 ≤ c.serverLen
  | .nbdSetOn => Readable c v ∧ 2 ≤ c.serverLen
  | .unknown => 2 ≤ c.serverLen

/-- A success that is heard is counted: either `count` is complete, or it does not stay as it is. -/
theorem user_counts {c : Setup} {o : Outcomes} {v : Vars} (hs : Settled c v) (hl : 2 ≤ c.serverLen)
    (hsuccess : ascii "success" ∈ answers c o) :
    ¬ LeavesAlone v ((userSetConfig c o v).andThen (gates c o)) := by
  intro h
  obtain ⟨hgo, _, _⟩ := userSetConfig_spec c o v
  have hstate := userSetConfig_state c o v
  have hpos : 0 < (answers c o).count (ascii "success") := List.count_pos_iff.mpr hsuccess
  have hcount : (answered c o v).count = v.count + (answers c o).count (ascii "success") := rfl
  by_cases hc : (answered c o v).count = c.serverLen - 1
  · rw [← hstate] at hc
    exact (Acts.of_andThen hgo (gates_act hc o)).not_leaves h
  · have hnbd : (answered c o v).nbdCount ≠ c.serverLen - 1 := hs.nbdCount hl
    have hsame := h.state.count
    rw [Done.andThen_go hgo, hstate] at hsame
    unfold gates at hsame
    rw [countGate_ne hc, Done.ok_nil_andThen, nbdGate_ne hnbd, Done.ok_nil_andThen,
      (unsuccessGate_spec _).1, hcount] at hsame
    omega

theorem answered_count {c : Setup} {o : Outcomes} (v : Vars)
    (hsuccess : ascii "success" ∉ answers c o) : (answered c o v).count = v.count := by
  show v.count + ((answers c o).count (ascii "success") : Int) = v.count
  rw [List.count_eq_zero.mpr hsuccess]
  exact Int.add_zero _

/-- `USER_SET_CONFIG` adds the successes it hears, and the gates undo an "unsuccess". -/
theorem user_leaves_iff {c : Setup} {o : Outcomes} {v : Vars} (hs : Settled c v)
    (hz : Uncounted c v) :
    LeavesAlone v ((userSetConfig c o v).andThen (gates c o)) ↔
      2 ≤ c.serverLen ∧ ascii "success" ∉ answers c o ∧
        (ascii "unsuccess" ∈ answers c o → v.unsuccessFlag = 0) := by
  obtain ⟨hgo, _, hsender⟩ := userSetConfig_spec c o v
  have hstate := userSetConfig_state c o v
  by_cases hl : 2 ≤ c.serverLen
  · by_cases hsuccess : ascii "success" ∈ answers c o
    · exact iff_of_false (user_counts hs hl hsuccess) fun h => h.2.1 hsuccess
    · have hcount := answered_count v hsuccess
      have hflag : (answered c o v).unsuccessFlag =
          if ascii "unsuccess" ∈ answers c o then 1 else v.unsuccessFlag := rfl
      have hgates : gates c o (answered c o v) = unsuccessGate (answered c o v) := by
        have hnbd : (answered c o v).nbdCount ≠ c.serverLen - 1 := hs.nbdCount hl
        unfold gates
        rw [countGate_ne (hcount.trans_ne (hs.count hl)), Done.ok_nil_andThen, nbdGate_ne hnbd,
          Done.ok_nil_andThen]
      rw [and_iff_right hl, and_iff_right hsuccess, Done.andThen_go hgo, hstate, hgates]
      by_cases hun : ascii "unsuccess" ∈ answers c o
      · rw [if_pos hun] at hflag
        have hgate : unsuccessGate (answered c o v) =
            .ok { answered c o v with unsuccessFlag := 0 }
              [.verdict (answered c o v).clientSock (ascii "unsuccess" ++ [0])] := if_pos hflag
        rw [hgate]
        constructor
        · intro h _
          exact h.state.unsuccessFlag.symm
        · intro h
          refine ⟨⟨rfl, rfl, rfl, hcount, rfl, rfl, (h hun).symm⟩, Exit.noConfusion, ?_⟩
          exact (noCommand_ofSender hsender).append fun _ _ _ he => by
            cases List.mem_singleton.mp he
      · rw [if_neg hun] at hflag
        rw [unsuccessGate_ne (hflag.trans_ne hs.unsuccessFlag)]
        refine iff_of_true ⟨⟨rfl, rfl, rfl, hcount, rfl, rfl, hflag⟩, Exit.noConfusion, ?_⟩
          fun h => absurd h hun
        exact (noCommand_ofSender hsender).append fun _ _ _ he => absurd he List.not_mem_nil
  · refine iff_of_false ?_ fun h => hl h.1
    have hcount : (userSetConfig c o v).state.count = c.serverLen - 1 := by
      rw [hstate]
      unfold answered
      rw [others_eq_nil hl]
      exact (Int.add_zero _).trans (count_alone hl hz)
    exact (Acts.of_andThen hgo (gates_act hcount o)).not_leaves

theorem mounted_noCommand (c : Setup) (o : Outcomes) (myobj : Option Json) :
    NoCommand (mountedEvents c o myobj) := by
  refine NoCommand.append ?_ fun _ _ _ he => by cases List.mem_singleton.mp he
  by_cases ha : o.access ≠ 0
  · rw [if_pos ha]
    exact fun _ _ _ he => by cases List.mem_singleton.mp he
  · rw [if_neg ha]
    exact fun _ _ _ he => absurd he List.not_mem_nil

/-- A handler that has written `mount_file`, and the gates after it. -/
theorem printed_leaves_iff {c : Setup} {o : Outcomes} {v : Vars} {r : Done Vars Event}
    {text : Bytes} (hs : Settled c v) (hz : Uncounted c v) (hgo : r.exit = .go)
    (hstate : r.state = { v with mountFile := some text }) (hnone : NoCommand r.events) :
    LeavesAlone v (r.andThen (gates c o)) ↔ v.mountFile = some text ∧ 2 ≤ c.serverLen := by
  rw [leaves_andThen_gates hgo (hstate ▸ ⟨hs.count, hs.nbdCount, hs.unsuccessFlag⟩) (hstate ▸ hz)
    hnone, hstate]
  exact and_congr_left fun _ =>
    ⟨fun h => h.mountFile.symm, fun h => ⟨rfl, rfl, h.symm, rfl, rfl, rfl, rfl⟩⟩

theorem mount_leaves_iff {c : Setup} {o : Outcomes} {v : Vars} (hs : Settled c v)
    (hz : Uncounted c v) (myobj : Option Json) :
    LeavesAlone v ((mountHandler c o myobj v).andThen (gates c o)) ↔
      o.mount < 0 ∨ PrintsMount c o c.myNode.ip ∧
        v.mountFile = fprintf c.junk (mountMsg c.myNode.ip) ∧ 2 ≤ c.serverLen := by
  by_cases hm : o.mount < 0
  · rw [mountHandler_fails hm, Done.andThen_stop Exit.noConfusion]
    exact iff_of_true ⟨SameState.refl v, Exit.noConfusion, mounted_noCommand c o myobj⟩ (Or.inl hm)
  · rw [or_iff_right hm, mountHandler_eq hm]
    rcases printMountFile_cases c o c.myNode.ip v with ⟨hp, text, htext, heq⟩ | ⟨hp, hcrash⟩
    · have hprint : PrintsMount c o c.myNode.ip := hp
      rw [and_iff_right hprint, htext, Done.ok_andThen, heq]
      refine printed_leaves_iff hs hz rfl (mountMsgSend_vars _ _ _ _) ?_
      refine NoCommand.append ((mounted_noCommand c o myobj).append ?_)
        (noCommand_ofSender (send_ofSender (fun _ _ => mountBody_ofBody) _))
      simp [NoCommand, Done.ok]
    · refine iff_of_false (Acts.not_leaves ?_) fun h => hp h.1
      exact (Acts.of_andThen rfl (Or.inl hcrash)).andThen _ |>.andThen _

theorem mountSetOn_leaves_iff {c : Setup} {o : Outcomes} {v : Vars} (hs : Settled c v)
    (hz : Uncounted c v) (myobj : Option Json) :
    LeavesAlone v ((mountSetOn c o myobj v).andThen (gates c o)) ↔
      PrintsMount c o (dmbdMountIp c myobj) ∧
        v.mountFile = fprintf c.junk (mountMsg (dmbdMountIp c myobj)) ∧ 2 ≤ c.serverLen := by
  unfold mountSetOn
  rcases printMountFile_cases c o (dmbdMountIp c myobj) v with ⟨hp, text, htext, heq⟩ | ⟨hp, hcrash⟩
  · have hprint : PrintsMount c o (dmbdMountIp c myobj) := hp
    rw [and_iff_right hprint, htext, heq]
    exact printed_leaves_iff hs hz rfl rfl (by simp [NoCommand, Done.ok])
  · exact iff_of_false (Acts.not_leaves (Acts.andThen (Or.inl hcrash) _)) fun h => hp h.1

theorem nbdSetOn_leaves_iff {c : Setup} {o : Outcomes} {i : Int} {v : Vars} (hs : Settled c v)
    (hz : Uncounted c v) :
    LeavesAlone v ((nbdSetOn c i v).andThen (gates c o)) ↔ Readable c v ∧ 2 ≤ c.serverLen := by
  by_cases hr : Readable c v
  · rw [nbdSetOn_readable hr, leaves_andThen_gates rfl hs hz (by simp [NoCommand, Done.ok])]
    exact and_congr_left fun _ => iff_of_true (SameState.refl v) hr
  · refine iff_of_false (Acts.not_leaves (Acts.andThen (Or.inl ?_) _)) fun h => hr h.1
    rw [nbdSetOn_unreadable hr]

/-- **When a message leaves the state alone**, between messages and for all outcomes. -/
theorem handle_leaves_iff {c : Setup} {o : Outcomes} {i : Int} {v : Vars} (hs : Settled c v)
    (hz : Uncounted c v) : LeavesAlone v (handle c o i v) ↔ Harmless c o v := by
  unfold handle handler Harmless
  cases commandOf c (cstr v.buffer) with
  | setConfig =>
    by_cases hflag : v.successFlag = 1
    · have hstop : setConfig c o i v = ⟨v, [], .cont⟩ := if_pos hflag
      show LeavesAlone v ((setConfig c o i v).andThen (gates c o)) ↔ v.successFlag = 1
      rw [hstop, Done.andThen_stop Exit.noConfusion]
      exact iff_of_true ⟨SameState.refl v, Exit.noConfusion,
        fun _ _ _ he => absurd he List.not_mem_nil⟩ hflag
    · exact iff_of_false ((setConfig_acts hflag).andThen _).not_leaves hflag
  | userSetConfig => exact user_leaves_iff hs hz
  | controllerSetConfig =>
    refine (leaves_andThen_gates rfl hs hz ?_).trans (and_iff_right (SameState.refl v))
    simp [NoCommand, controllerSetConfig, Done.ok]
  | mount => exact mount_leaves_iff hs hz _
  | mountSetOn => exact mountSetOn_leaves_iff hs hz _
  | nbdSetOn => exact nbdSetOn_leaves_iff hs hz
  | unknown =>
    refine (leaves_andThen_gates rfl hs hz ?_).trans (and_iff_right (SameState.refl v))
    exact fun _ _ _ he => absurd he List.not_mem_nil

/-! ## Runs -/

/-- A text with neither a known `cmd_type` nor the array of a configuration. -/
def MalformedText (c : Setup) (text : Bytes) : Prop :=
  commandOf c text = .unknown ∨ commandOf c text = .setConfig ∧
    ∀ elems, objectGetEx (c.json.tokenerParse text) (ascii "remote") ≠ some (.arr elems)

/-- Such a text leaves the state alone in two cases. -/
theorem harmless_malformed {c : Setup} {o : Outcomes} {v : Vars}
    (h : MalformedText c (cstr v.buffer)) :
    Harmless c o v ↔ commandOf c (cstr v.buffer) = .setConfig ∧ v.successFlag = 1 ∨
      commandOf c (cstr v.buffer) = .unknown ∧ 2 ≤ c.serverLen := by
  unfold Harmless
  rcases h with h | ⟨h, _⟩
  · simp [h]
  · simp [h]

/-- What a read returned is no message: it failed, or it got such a text. -/
def Malformed (c : Setup) (v : Vars) (r : Option Bytes) : Prop :=
  r = none ∨ MalformedText c (textOf v r)

/-- One step leaves the state alone. -/
structure LeftAlone (v w : Vars) (es : List Event) : Prop where
  state : SameState v w
  running : w.running = true
  noCommand : NoCommand es

theorem leftAlone_message {c : Setup} {v : Vars} {r : Option Bytes} (hrun : v.running = true)
    (hr : r ≠ some []) (i : Int) (o : Outcomes) :
    LeftAlone v (step c v (.read i r o)).1 (step c v (.read i r o)).2 ↔
      LeavesAlone (afterRead v r) (handle c o i (afterRead v r)) := by
  rw [step_message hrun hr]
  constructor
  · rintro ⟨⟨h₁, h₂, h₃, h₄, h₅, h₆, h₇⟩, hlive, hnone⟩
    exact ⟨⟨h₁, h₂, h₃, h₄, h₅, h₆, h₇⟩, of_decide_eq_true hlive,
      fun site cmd ret he => hnone site cmd ret (List.mem_cons_of_mem _ he)⟩
  · rintro ⟨⟨h₁, h₂, h₃, h₄, h₅, h₆, h₇⟩, hlive, hnone⟩
    refine ⟨⟨h₁, h₂, h₃, h₄, h₅, h₆, h₇⟩, decide_eq_true hlive, fun site cmd ret he => ?_⟩
    rcases List.mem_cons.mp he with he | he
    · cases he
    · exact hnone site cmd ret he

theorem leftAlone_closed {c : Setup} {v : Vars} (hrun : v.running = true) (i : Int)
    (o : Outcomes) :
    LeftAlone v (step c v (.read i (some []) o)).1 (step c v (.read i (some []) o)).2 := by
  unfold step serve
  rw [if_pos hrun]
  simp only [if_true]
  exact ⟨⟨rfl, rfl, rfl, rfl, rfl, rfl, rfl⟩, hrun,
    fun _ _ _ he => by cases List.mem_singleton.mp he⟩

/-- Where a call does not come back the process does not go on. -/
theorem leftAlone_stalls {c : Setup} {v : Vars} (hrun : v.running = true) (inp : Input)
    (st : Stalls) :
    LeftAlone v (stallStep c v (inp, st)).1 (stallStep c v (inp, st)).2 ↔
      ¬ StallsAt st c v inp ∧ LeftAlone v (step c v inp).1 (step c v inp).2 := by
  have hstep : stallStep c v (inp, st) = stallServe st c v inp := if_pos hrun
  by_cases hs : StallsAt st c v inp
  · have hstop := (stallServe_ends_iff hrun inp).mpr (Or.inr hs)
    rw [hstep]
    exact iff_of_false (fun h => Bool.noConfusion (hstop.symm.trans h.running)) fun h => h.1 hs
  · have hserve : step c v inp = serve c v inp := if_pos hrun
    rw [hstep, stallServe_comes_back hs, hserve]
    exact (and_iff_right hs).symm

/-- While the process goes on, what holds between messages does. -/
theorem stallStep_between {c : Setup} {v : Vars}
    (hv : v.running = true → Settled c v ∧ Uncounted c v) (inp : Input × Stalls)
    (hlive : (stallStep c v inp).1.running = true) :
    Settled c (stallStep c v inp).1 ∧ Uncounted c (stallStep c v inp).1 := by
  by_cases hrun : v.running = true
  · have hstep : stallStep c v inp = stallServe inp.2 c v inp.1 := if_pos hrun
    by_cases hs : StallsAt inp.2 c v inp.1
    · rw [hstep, (stallServe_ends_iff hrun inp.1).mpr (Or.inr hs)] at hlive
      cases hlive
    · have hserve : step c v inp.1 = serve c v inp.1 := if_pos hrun
      rw [hstep, stallServe_comes_back hs, ← hserve] at hlive ⊢
      exact ⟨step_settled (fun h => (hv h).1) inp.1 hlive, step_uncounted (hv hrun).2 inp.1⟩
  · have hstep : stallStep c v inp = (v, []) := if_neg hrun
    rw [hstep] at hlive ⊢
    exact hv hlive

/-- **When a message that no handler is for leaves the state alone**, over every run and whichever
calls do not come back: it is the end of a connection, or a text without `cmd_type` at a controller
that has completed a round, or one with a foreign `cmd_type` among two servers or more, or a failed
read that finds such a text, or another whose handling changes nothing and comes to its end, in
`buffer`. -/
theorem malformed_leaves_iff (c : Setup) (v₀ : Vars) (h₀ : v₀.Start c)
    (is : List (Input × Stalls)) :
    ∀ t ∈ trace (stallStep c) v₀ is, ∀ i r o st, t.input = (.read i r o, st) →
      t.before.running = true → Malformed c t.before r →
        (LeftAlone t.before (stallStep c t.before t.input).1 t.events ↔
          r = some [] ∨ Harmless c o (afterRead t.before r) ∧
            ¬ StallsMessage st c o (afterRead t.before r)) := by
  have hstep : ∀ v inp, (v.running = true → Settled c v ∧ Uncounted c v) → True →
      ((stallStep c v inp).1.running = true →
        Settled c (stallStep c v inp).1 ∧ Uncounted c (stallStep c v inp).1) ∧
        ∀ i r o st, inp = (.read i r o, st) → v.running = true → Malformed c v r →
          (LeftAlone v (stallStep c v inp).1 (stallStep c v inp).2 ↔
            r = some [] ∨ Harmless c o (afterRead v r) ∧
              ¬ StallsMessage st c o (afterRead v r)) := by
    rintro v inp hv -
    refine ⟨stallStep_between hv inp, ?_⟩
    rintro i r o st rfl hrun -
    rw [leftAlone_stalls hrun]
    by_cases hr : r = some []
    · rw [hr]
      exact iff_of_true ⟨fun h => h.1 rfl, leftAlone_closed hrun i o⟩ (Or.inl rfl)
    · have hs : Settled c (afterRead v r) := (hv hrun).1.of_same ⟨rfl, rfl, rfl, rfl⟩
      have hstalls : StallsAt st c v (.read i r o) ↔ StallsMessage st c o (afterRead v r) :=
        and_iff_right hr
      rw [or_iff_right hr, hstalls, leftAlone_message hrun hr, handle_leaves_iff hs (hv hrun).2,
        and_comm]
  exact forall_trace (P := fun v inp es => ∀ i r o st, inp = (.read i r o, st) →
    v.running = true → Malformed c v r →
      (LeftAlone v (stallStep c v inp).1 es ↔ r = some [] ∨ Harmless c o (afterRead v r) ∧
        ¬ StallsMessage st c o (afterRead v r)))
    hstep is v₀ (fun hrun => ⟨h₀.between hrun, fun _ => h₀.count⟩) fun _ _ => trivial

/-- A text that is not JSON, on the connection of the client; every call comes back. -/
def garbageInput : Input × Stalls := (.read 4 (some (ascii "hello")) allOk, noStalls)

/-- It takes the place of the configuration, and the process ends. -/
theorem garbage_not_left_alone :
    (startVars (some sampleConfig)).Start (twoServers sampleJson) ∧ accepted.running = true ∧
      Malformed (twoServers sampleJson) accepted (some (ascii "hello")) ∧
      accepted.dmbdConfig = some sampleConfig ∧
      (stallStep (twoServers sampleJson) accepted garbageInput).1.dmbdConfig =
        some (ascii "hello") ∧
      (stallStep (twoServers sampleJson) accepted garbageInput).1.running = false ∧
      ¬ LeftAlone accepted (stallStep (twoServers sampleJson) accepted garbageInput).1
        (stallStep (twoServers sampleJson) accepted garbageInput).2 := by
  have hfile : (stallStep (twoServers sampleJson) accepted garbageInput).1.dmbdConfig =
      some (ascii "hello") := by decide +kernel
  have htext : textOf accepted (some (ascii "hello")) = ascii "hello" := by decide +kernel
  have hparse : sampleJson.tokenerParse (ascii "hello") = none := by
    simp only [sampleJson, jsonOf, Option.map_eq_none_iff]
    decide +kernel
  refine ⟨startVars_start _ _ _ _, rfl, Or.inr (Or.inr ⟨by decide +kernel, fun elems h => ?_⟩), rfl,
    hfile, by decide +kernel, fun h => ?_⟩
  · have hnone : objectGetEx (sampleJson.tokenerParse (textOf accepted (some (ascii "hello"))))
        (ascii "remote") = some (.arr elems) := h
    rw [htext, hparse] at hnone
    cases hnone
  · have hsame := h.state.dmbdConfig
    rw [hfile] at hsame
    exact absurd hsame (by decide +kernel)

/-- A message with a foreign `cmd_type`. -/
def statusText : Bytes := ascii "\x7b\"cmd_type\": \"STATUS\"\x7d"

/-- json-c on it. -/
def statusJson : JsonC :=
  jsonOf [(statusText, .obj [(ascii "cmd_type", some (.str (ascii "STATUS")))])]

/-- It is what a connection has to say; every call comes back. -/
def statusInput : Input × Stalls := (.read 4 (some (statusText ++ [0])) allOk, noStalls)

/-- Two servers leave their state alone at it. -/
theorem status_left_alone :
    LeftAlone (startVars none)
      (stallStep (twoServers statusJson) (startVars none) statusInput).1
      (stallStep (twoServers statusJson) (startVars none) statusInput).2 := by
  have hcmd : commandOf (twoServers statusJson)
      (textOf (startVars none) (some (statusText ++ [0]))) = .unknown := by decide +kernel
  refine (malformed_leaves_iff (twoServers statusJson) (startVars none) (startVars_start _ _ _ _)
    [statusInput] ⟨startVars none, _, _⟩ List.mem_cons_self 4 (some (statusText ++ [0])) allOk
    noStalls rfl rfl (Or.inr (Or.inl hcmd))).mpr (Or.inr ⟨?_, fun h => ?_⟩)
  · have hcmd' : commandOf (twoServers statusJson)
        (cstr (afterRead (startVars none) (some (statusText ++ [0]))).buffer) = .unknown := hcmd
    exact (harmless_malformed (Or.inl hcmd')).mpr (Or.inr ⟨hcmd', by decide +kernel⟩)
  · exact not_hangs_none _ ((handle_hangs_iff _ _ 4 _).mpr h)

end JcmController.Controller
