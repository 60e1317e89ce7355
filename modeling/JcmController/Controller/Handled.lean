import JcmController.Controller.Answers
import JcmController.Controller.Descriptors

/-!
# What a message does to the loop that handles it

The `for` loop of `main` knows three things that a handler could get in its way with: `fs_status`
and `maxfd`, the connections, and whether the process lives on.

* **`handle_off`**: no handler and no gate touches `fs_status` or `maxfd`, opens a connection or
  closes one.
* **`handle_crash_iff`**: when a message ends the process, in terms of the state before it and of
  what its calls return.
-/

namespace JcmController.Controller

open JcmController.Lib

/-! ## Off the registration -/

/-- `fs_status` and `maxfd` are the same. -/
def SameFds (v w : Vars) : Prop := w.fsStatus = v.fsStatus ∧ w.maxfd = v.maxfd

theorem SameFds.refl (v : Vars) : SameFds v v := ⟨rfl, rfl⟩

theorem SameFds.trans {u v w : Vars} (h : SameFds u v) (h' : SameFds v w) : SameFds u w :=
  ⟨h'.1.trans h.1, h'.2.trans h.2⟩

/-- The event neither opens nor closes the connection `fd`. -/
def Event.OffFd (e : Event) (fd : Int) : Prop := e ≠ .opened (.conn fd) ∧ e ≠ .closed (.conn fd)

/-- The event opens no connection and closes none. -/
def Event.OffConn (e : Event) : Prop := ∀ fd, e.OffFd fd

theorem Event.OfSender.offConn {e : Event} (h : e.OfSender) : e.OffConn := by
  refine fun fd => ⟨?_, ?_⟩
  · rintro rfl
    rcases h with h | h
    · cases h
    · cases h
  · rintro rfl
    exact h

theorem offConn_nil : ∀ e ∈ ([] : List Event), e.OffConn := fun _ he => absurd he List.not_mem_nil

/-- The statement is off the registration. -/
def Off (v : Vars) : Done Vars Event → Prop := Done.Keeps (SameFds v) Event.OffConn

theorem off_nil (v : Vars) (x : Exit) : Off v ⟨v, [], x⟩ := .nil (SameFds.refl v) x

theorem Off.andThen {v : Vars} {r : Done Vars Event} {f : Vars → Done Vars Event}
    (hr : Off v r) (hf : ∀ w, Off w (f w)) : Off v (r.andThen f) :=
  Done.Keeps.andThen hr fun h => ⟨h.trans (hf _).1, (hf _).2⟩

/-- The senders. -/
theorem send_off (c : Setup) (f : SendFn) (net : Net)
    {body : Nat → Sender → Sender × List Event} (hbody : ∀ n s, ∀ e ∈ (body n s).2, e.OfBody)
    (hvars : ∀ n s, SameFds s.vars (body n s).1.vars) (v : Vars) :
    SameFds v (send c f net body v).1.vars ∧ ∀ e ∈ (send c f net body v).2, e.OffConn :=
  send_keeps (fun n s hs => ⟨hs.trans (hvars n s), fun e he => (hbody n s e he).ofSender.offConn⟩)
    (fun _ _ fd => ⟨Event.noConfusion, Event.noConfusion⟩)
    (fun fd => ⟨by simp, Event.noConfusion⟩) (SameFds.refl v)

theorem takeVerdict_fds (second : Bytes) (v : Vars) : SameFds v (takeVerdict second v) := by
  unfold takeVerdict
  split_ifs <;> exact SameFds.refl v

theorem startNbdServers_off (c : Setup) (o : Outcomes) (rs : List DmbdConfigRemote) (n : Nat)
    (v : Vars) : Off v (startNbdServers c o rs n v) := by
  refine startNbdServers_keeps (fun _ _ h => ⟨h.1, h.2⟩) ?_ ?_ ?_ rs n v (SameFds.refl v)
  · exact fun _ => ⟨by simp, Event.noConfusion⟩
  · exact fun _ => ⟨Event.noConfusion, by simp⟩
  · exact fun _ _ => ⟨Event.noConfusion, Event.noConfusion⟩

theorem loadConfig_off (c : Setup) (o : Outcomes) (i : Int) (remote : List DmbdConfigRemote)
    (v : Vars) : Off v (loadConfig c o i remote v) := by
  unfold loadConfig
  by_cases hi : o.configInsmod ≠ 0
  · simp only [if_pos hi]
    exact ⟨SameFds.refl v, by simp [Event.OffConn, Event.OffFd]⟩
  · simp only [if_neg hi]
    refine Off.andThen (Off.andThen ⟨SameFds.refl v, ?_⟩ (startNbdServers_off c o remote 0))
      fun w => ⟨SameFds.refl w, ?_⟩
    · simp [Event.OffConn, Event.OffFd, Done.ok]
    · simp [Event.OffConn, Event.OffFd, Done.ok]

theorem setConfig_off (c : Setup) (o : Outcomes) (i : Int) (v : Vars) :
    Off v (setConfig c o i v) := by
  by_cases hs : v.successFlag = 1
  · unfold setConfig
    rw [if_pos hs]
    exact off_nil v _
  · obtain ⟨es, hes, heq⟩ := setConfig_stored (c := c) (o := o) hs i
    rw [heq]
    refine Off.andThen ⟨?_, fun e he => ?_⟩ fun w =>
      withRemote_keeps (SameFds.refl w) fun remote => loadConfig_off c o i remote w
    · show SameFds v (fileRead o v)
      unfold fileRead
      split_ifs <;> exact SameFds.refl v
    · rw [hes e he]
      exact fun fd => ⟨by simp, Event.noConfusion⟩

theorem userSetConfig_off (c : Setup) (o : Outcomes) (v : Vars) : Off v (userSetConfig c o v) := by
  unfold userSetConfig
  by_cases hl : c.serverLen > 1
  · rw [if_pos hl]
    exact send_off c .msgSend o.msgNet (fun _ _ => msgBody_ofBody)
      (fun _ s => takeVerdict_fds _ s.vars) v
  · rw [if_neg hl]
    exact off_nil v _

theorem mountHandler_off (c : Setup) (o : Outcomes) (myobj : Option Json) (v : Vars) :
    Off v (mountHandler c o myobj v) := by
  have hbody : ∀ n s, ∀ e ∈ (mountBody o.mountNet (mountCmd c.myNode.ip) n s).2, e.OfBody :=
    fun _ _ => mountBody_ofBody
  refine mountHandler_keeps (SameFds.refl v) (fun _ => ⟨rfl, rfl⟩)
    (fun _ _ _ => ⟨Event.noConfusion, Event.noConfusion⟩)
    (fun _ _ _ _ _ => ⟨Event.noConfusion, Event.noConfusion⟩)
    (fun _ => ⟨by simp, Event.noConfusion⟩) (fun _ => ⟨Event.noConfusion, by simp⟩) fun w hw => ?_
  obtain ⟨hr, hre⟩ := send_off c .mountMsgSend o.mountNet hbody (fun _ s => SameFds.refl s.vars) w
  exact ⟨hw.trans hr, hre⟩

theorem handler_off (c : Setup) (o : Outcomes) (i : Int) (text : Bytes) (v : Vars) :
    Off v (handler c o i text v) := by
  unfold handler
  cases commandOf c text with
  | setConfig => exact setConfig_off c o i v
  | userSetConfig => exact userSetConfig_off c o v
  | controllerSetConfig =>
    exact ⟨SameFds.refl v, by simp [Event.OffConn, Event.OffFd, controllerSetConfig, Done.ok]⟩
  | mount => exact mountHandler_off c o (c.json.tokenerParse text) v
  | mountSetOn =>
    exact printMountFile_keeps (SameFds.refl v) (fun _ => ⟨rfl, rfl⟩)
      (fun _ => ⟨by simp, Event.noConfusion⟩) fun _ => ⟨Event.noConfusion, by simp⟩
  | nbdSetOn =>
    exact withRemote_keeps (SameFds.refl v) fun _ =>
      ⟨SameFds.refl v, by simp [Event.OffConn, Event.OffFd, Done.ok]⟩
  | unknown => exact off_nil v _

theorem gates_off (c : Setup) (o : Outcomes) (v : Vars) : Off v (gates c o v) := by
  have hframe := gates_frame c o v
  refine ⟨⟨hframe.fsStatus, hframe.maxfd⟩, fun e he => ?_⟩
  rcases mem_gates he with ⟨remote, he⟩ | rfl | ⟨w, he⟩ | ⟨fd, text, rfl⟩
  · obtain ⟨site, cmd, ret, rfl⟩ := (activate_keeps c o remote 0 v).2 e he
    exact fun _ => ⟨Event.noConfusion, Event.noConfusion⟩
  · exact fun _ => ⟨Event.noConfusion, Event.noConfusion⟩
  · exact ((nbdMsgSend_keeps c o.nbdNet nbdClientMsg w).2 e he).offConn
  · exact fun _ => ⟨Event.noConfusion, Event.noConfusion⟩

/-- **No message touches the registration.** -/
theorem handle_off (c : Setup) (o : Outcomes) (i : Int) (v : Vars) : Off v (handle c o i v) :=
  (handler_off c o i (cstr v.buffer) v).andThen (gates_off c o)

/-! ## The end of the process -/

/-- A statement and one after it: which of them ends the process. -/
theorem andThen_crash_iff {r : Done Vars Event} {f : Vars → Done Vars Event} :
    (r.andThen f).exit = .crash ↔ r.exit = .crash ∨ r.exit = .go ∧ (f r.state).exit = .crash := by
  by_cases hgo : r.exit = .go
  · rw [Done.andThen_go hgo, hgo]
    exact ⟨fun h => Or.inr ⟨rfl, h⟩, fun h => h.elim (fun h => Exit.noConfusion h) And.right⟩
  · rw [Done.andThen_stop hgo]
    exact ⟨Or.inl, fun h => h.elim id fun h => absurd h.1 hgo⟩

theorem countGate_crash_iff (c : Setup) (o : Outcomes) (v : Vars) :
    (countGate c o v).exit = .crash ↔ v.count = c.serverLen - 1 ∧ ¬ Readable c v := by
  by_cases h : v.count = c.serverLen - 1 → Readable c v
  · have hgo := (countGate_spec (o := o) h).1
    exact iff_of_false (fun hx => Exit.noConfusion (hgo.symm.trans hx)) fun hc => hc.2 (h hc.1)
  · obtain ⟨hcount, hno⟩ := Classical.not_imp.mp h
    rw [countGate_unreadable hcount hno]
    exact iff_of_true rfl ⟨hcount, hno⟩

theorem nbdGate_crash_iff (c : Setup) (v : Vars) :
    (nbdGate c v).exit = .crash ↔ v.nbdCount = c.serverLen - 1 ∧ ¬ Readable c v := by
  by_cases hl : v.nbdCount = c.serverLen - 1
  · rw [and_iff_right hl]
    by_cases hr : Readable c v
    · rw [nbdGate_eq hl hr]
      exact iff_of_false Exit.noConfusion (not_not_intro hr)
    · rw [nbdGate_unreadable hl hr]
      exact iff_of_true rfl hr
  · rw [nbdGate_ne hl]
    exact iff_of_false Exit.noConfusion fun h => hl h.1

theorem unsuccessGate_go (v : Vars) : (unsuccessGate v).exit = .go := by
  unfold unsuccessGate
  split_ifs <;> rfl

/-- The gates end the process where they have to read a file that cannot be read. -/
theorem gates_crash_iff (c : Setup) (o : Outcomes) (v : Vars) :
    (gates c o v).exit = .crash ↔ Asks c o v ∧ ¬ Readable c v := by
  have hlast : ∀ w, (unsuccessGate w).exit ≠ .crash := fun w =>
    (unsuccessGate_go w).trans_ne Exit.noConfusion
  unfold gates Asks
  rw [andThen_crash_iff, or_iff_left fun h => hlast _ h.2, andThen_crash_iff, countGate_crash_iff,
    nbdGate_crash_iff, or_and_right]
  by_cases h : v.count = c.serverLen - 1 → Readable c v
  · obtain ⟨hgo, hnbd, _, hfile⟩ := countGate_spec (o := o) h
    have hread : Readable c (countGate c o v).state ↔ Readable c v := by
      unfold Readable
      rw [hfile]
    rw [and_iff_right hgo, hnbd, hread]
    exact Iff.rfl
  · have hcount := Classical.not_imp.mp h
    exact iff_of_true (Or.inl hcount) (Or.inl hcount)

/-- The handling of the message in `buffer` ends the process: it has to read a `dmbd_config` that
`ReadDMBDRemote` cannot read, or a file that cannot be opened or that `fprintf` cannot print. -/
def Crashes (c : Setup) (o : Outcomes) (v : Vars) : Prop :=
  match commandOf c (cstr v.buffer) with
  | .setConfig => v.successFlag ≠ 1 ∧
      ∀ remote, readDMBDRemote c.json (fileRead o v).dmbdConfig = some remote →
        o.configInsmod = 0 ∧ ¬ PrintsOwn c o remote 0
  | .userSetConfig => Asks c o (answered c o v) ∧ ¬ Readable c v
  | .mount => ¬ o.mount < 0 ∧ (¬ PrintsMount c o c.myNode.ip ∨ Asks c o v ∧ ¬ Readable c v)
  | .mountSetOn => ¬ PrintsMount c o (dmbdMountIp c (c.json.tokenerParse (cstr v.buffer))) ∨
      Asks c o v ∧ ¬ Readable c v
  | .nbdSetOn => ¬ Readable c v
  | .controllerSetConfig | .unknown => Asks c o v ∧ ¬ Readable c v

theorem loadConfig_crash_iff {c : Setup} {o : Outcomes} {i : Int} {remote : List DmbdConfigRemote}
    {v : Vars} :
    (loadConfig c o i remote v).exit = .crash ↔
      o.configInsmod = 0 ∧ ¬ PrintsOwn c o remote 0 := by
  by_cases hi : o.configInsmod = 0
  · rw [loadConfig_zero hi, andThen_crash_iff, and_iff_right hi,
      ← startNbdServers_go c o remote 0 (commanded c remote v)]
    have hcont : (loaded c o remote v).exit ≠ .cont :=
      Done.andThen_ne_cont Exit.noConfusion (startNbdServers_ne_cont c o remote 0)
    have hexit : (loaded c o remote v).exit =
        (startNbdServers c o remote 0 (commanded c remote v)).exit := rfl
    rw [← hexit]
    constructor
    · rintro (h | ⟨_, h⟩)
      · exact h.trans_ne Exit.noConfusion
      · cases h
    · exact fun h => Or.inl (crash_of_ne h hcont)
  · rw [loadConfig_nonzero hi]
    exact iff_of_false Exit.noConfusion fun h => hi h.1

/-- The configuration handler, and the gates after it: they find the file it has read. -/
theorem setConfig_crash_iff (c : Setup) (o : Outcomes) (i : Int) (v : Vars) :
    ((setConfig c o i v).andThen (gates c o)).exit = .crash ↔ v.successFlag ≠ 1 ∧
      ∀ remote, readDMBDRemote c.json (fileRead o v).dmbdConfig = some remote →
        o.configInsmod = 0 ∧ ¬ PrintsOwn c o remote 0 := by
  have hgates : ¬ ((setConfig c o i v).exit = .go ∧
      (gates c o (setConfig c o i v).state).exit = .crash) := by
    rintro ⟨hgo, h⟩
    exact ((gates_crash_iff c o _).mp h).2 ((setConfig_go c o i v).2 hgo)
  rw [andThen_crash_iff, or_iff_left hgates]
  by_cases hs : v.successFlag = 1
  · have hstop : setConfig c o i v = ⟨v, [], .cont⟩ := if_pos hs
    rw [hstop]
    exact iff_of_false Exit.noConfusion fun h => h.1 hs
  · obtain ⟨es, _, heq⟩ := setConfig_stored (c := c) (o := o) hs i
    rw [heq, Done.ok_andThen, and_iff_right hs]
    unfold withRemote
    cases readDMBDRemote c.json (fileRead o v).dmbdConfig with
    | none => exact iff_of_true rfl fun _ h => by cases h
    | some remote => simp only [loadConfig_crash_iff, Option.some.injEq, forall_eq']

/-- A handler that comes to its end and leaves the round and the file alone, before the gates. -/
theorem go_crash_iff {c : Setup} {o : Outcomes} {v : Vars} {r : Done Vars Event}
    (hgo : r.exit = .go) (hsame : SameRound v r.state)
    (hfile : r.state.dmbdConfig = v.dmbdConfig) :
    (r.andThen (gates c o)).exit = .crash ↔ Asks c o v ∧ ¬ Readable c v := by
  rw [Done.andThen_go hgo, ← (hsame.gates o).2.1]
  refine (gates_crash_iff c o r.state).trans (and_congr_right fun _ => not_congr ?_)
  unfold Readable
  rw [hfile]

/-- The same where the handler may end the process instead. -/
theorem print_crash_iff {c : Setup} {o : Outcomes} {v : Vars} {r : Done Vars Event} {P : Prop}
    (hgo : r.exit = .go ↔ P) (hcrash : r.exit ≠ .go → r.exit = .crash)
    (hsame : SameRound v r.state) (hfile : r.state.dmbdConfig = v.dmbdConfig) :
    (r.andThen (gates c o)).exit = .crash ↔ ¬ P ∨ Asks c o v ∧ ¬ Readable c v := by
  by_cases hP : P
  · rw [or_iff_right (not_not_intro hP)]
    exact go_crash_iff (hgo.mpr hP) hsame hfile
  · have hstop := mt hgo.mp hP
    rw [Done.andThen_stop hstop, hcrash hstop]
    exact iff_of_true rfl (Or.inl hP)

theorem mount_crash_iff (c : Setup) (o : Outcomes) (myobj : Option Json) (v : Vars) :
    ((mountHandler c o myobj v).andThen (gates c o)).exit = .crash ↔
      ¬ o.mount < 0 ∧ (¬ PrintsMount c o c.myNode.ip ∨ Asks c o v ∧ ¬ Readable c v) := by
  obtain ⟨hgo, hfile⟩ := mountHandler_go c o myobj v
  by_cases hm : o.mount < 0
  · rw [mountHandler_fails hm]
    exact iff_of_false Exit.noConfusion fun h => h.1 hm
  · rw [and_iff_right hm]
    exact print_crash_iff (hgo.trans (and_iff_right hm)) (mountHandler_crash hm)
      ((mountHandler_silent c o myobj v).1) hfile

theorem mountSetOn_crash_iff (c : Setup) (o : Outcomes) (myobj : Option Json) (v : Vars) :
    ((mountSetOn c o myobj v).andThen (gates c o)).exit = .crash ↔
      ¬ PrintsMount c o (dmbdMountIp c myobj) ∨ Asks c o v ∧ ¬ Readable c v :=
  print_crash_iff printMountFile_go_iff (fun h => crash_of_ne h (printFile_ne_cont _ _ _ _ _ _))
    ((mountSetOn_silent c o myobj v).1)
    (printMountFile_keeps (P := fun w => w.dmbdConfig = v.dmbdConfig) (Q := fun _ => True) rfl
      (fun _ => rfl) trivial trivial).1

/-- **When a message ends the process.** -/
theorem handle_crash_iff (c : Setup) (o : Outcomes) (i : Int) (v : Vars) :
    (handle c o i v).exit = .crash ↔ Crashes c o v := by
  unfold handle handler Crashes
  cases commandOf c (cstr v.buffer) with
  | setConfig => exact setConfig_crash_iff c o i v
  | userSetConfig =>
    show ((userSetConfig c o v).andThen (gates c o)).exit = .crash ↔ _
    rw [Done.andThen_go (userSetConfig_spec c o v).1, userSetConfig_state]
    exact gates_crash_iff c o (answered c o v)
  | controllerSetConfig => exact go_crash_iff rfl (SameRound.refl v) rfl
  | mount => exact mount_crash_iff c o _ v
  | mountSetOn => exact mountSetOn_crash_iff c o _ v
  | nbdSetOn =>
    show ((nbdSetOn c i v).andThen (gates c o)).exit = .crash ↔ ¬ Readable c v
    by_cases hr : Readable c v
    · rw [nbdSetOn_readable hr]
      refine (go_crash_iff rfl (SameRound.refl v) rfl).trans ?_
      exact iff_of_false (fun h => h.2 hr) (not_not_intro hr)
    · rw [nbdSetOn_unreadable hr]
      exact iff_of_true rfl hr
  | unknown => exact go_crash_iff rfl (SameRound.refl v) rfl

end JcmController.Controller
