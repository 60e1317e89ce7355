import JcmController.Controller.Replicate

/-!
# How many verdicts a message is answered with

The verdict of a request is not an answer to it: it comes out of the counters after it, and so it
can come out twice, or not at all, or after a message of another kind.

* `msgTexts`, `nbdTexts` are what the two senders find in `buffer` at each server they reach.
* `userSetConfig_state`: what `USER_SET_CONFIG` makes of the answers.
* `gates_verdicts`: which verdicts the gates write.
* **`verdicts_iff`**: when a request gets exactly one, and when another message gets none, in every
  state and for all outcomes.
-/

namespace JcmController.Controller

open JcmController.Lib

/-- The verdicts among events. -/
def verdicts (es : List Event) : List Bytes :=
  es.filterMap fun | .verdict _ msg => some msg | _ => none

theorem verdicts_append (es es' : List Event) :
    verdicts (es ++ es') = verdicts es ++ verdicts es' :=
  List.filterMap_append

theorem verdicts_eq_nil {es : List Event} (h : ∀ e ∈ es, ¬ e.IsVerdict) : verdicts es = [] := by
  refine List.filterMap_eq_nil_iff.mpr fun e he => ?_
  cases e with
  | verdict fd msg => exact absurd ⟨fd, msg, rfl⟩ (h _ he)
  | _ => rfl

/-! ## The answers -/

/-- The texts in `buffer` after the two reads from each server that `msg_send` reaches. -/
def msgTexts (net : Net) : Bool → Bytes → List Nat → List Bytes
  | _, _, [] => []
  | connected, buf, n :: ns =>
    if net.connects n connected then
      let second := readTerm 1024 (readTerm 1024 buf (net.peer n).first) (net.peer n).second
      cstr second :: msgTexts net true second ns
    else []

/-- The same after the one read of `nbd_msg_send`. -/
def nbdTexts (net : Net) : Bool → Bytes → List Nat → List Bytes
  | _, _, [] => []
  | connected, buf, n :: ns =>
    if net.connects n connected then
      let answer := readInto 1024 buf (net.peer n).first
      cstr answer :: nbdTexts net true answer ns
    else []

/-- What these answers make of `count` and `unsuccess_flag`. -/
def answeredBy (texts : List Bytes) (v : Vars) : Vars :=
  { v with
    count := v.count + texts.count (ascii "success")
    unsuccessFlag := if ascii "unsuccess" ∈ texts then 1 else v.unsuccessFlag }

theorem answeredBy_nil (v : Vars) : answeredBy [] v = v := by
  simp [answeredBy]

theorem answeredBy_cons (second : Bytes) (texts : List Bytes) (v : Vars) :
    answeredBy (cstr second :: texts) v = answeredBy texts (takeVerdict second v) := by
  have hne : ascii "success" ≠ ascii "unsuccess" := by decide
  unfold answeredBy takeVerdict
  by_cases hs : cstr second = ascii "success"
  · simp [hs, hne.symm]
    omega
  · by_cases hu : cstr second = ascii "unsuccess"
    · simp [hu, hne.symm]
    · simp [hs, hu, Ne.symm hu]

theorem visit_msgBody (net : Net) (buf : Bytes) (ns : List Nat) (s : Sender) :
    (visit .msgSend net (msgBody net buf) ns s).1.vars =
      answeredBy (msgTexts net s.connected s.buffer ns) s.vars := by
  induction ns generalizing s with
  | nil => exact (answeredBy_nil s.vars).symm
  | cons n ns ih =>
    unfold visit msgTexts
    by_cases hn : net.connects n s.connected = true
    · rw [if_pos hn, if_pos hn, answeredBy_cons]
      exact ih _
    · rw [if_neg hn, if_neg hn]
      exact (answeredBy_nil s.vars).symm

/-- The state in which `USER_SET_CONFIG` leaves the counters. -/
def answered (c : Setup) (o : Outcomes) (v : Vars) : Vars :=
  answeredBy (msgTexts o.msgNet false o.msgNet.stack c.others) v

/-- **`USER_SET_CONFIG`** counts the answers. -/
theorem userSetConfig_state (c : Setup) (o : Outcomes) (v : Vars) :
    (userSetConfig c o v).state = answered c o v := by
  unfold userSetConfig
  by_cases hl : c.serverLen > 1
  · rw [if_pos hl]
    show (send c .msgSend o.msgNet (msgBody o.msgNet controllerCmd) v).1.vars = answered c o v
    rw [send_eq_visit]
    exact visit_msgBody o.msgNet controllerCmd c.others _
  · rw [if_neg hl]
    unfold answered
    rw [others_eq_nil hl]
    exact (answeredBy_nil v).symm

theorem visit_nbdBody (net : Net) (buf : Bytes) (ns : List Nat) (s : Sender) :
    (visit .nbdMsgSend net (nbdBody net buf) ns s).1.vars =
      { s.vars with nbdCount := s.vars.nbdCount +
          (nbdTexts net s.connected s.buffer ns).count (ascii "NBD_CLIENT_LOAD") } := by
  induction ns generalizing s with
  | nil => simp [visit, nbdTexts]
  | cons n ns ih =>
    unfold visit nbdTexts
    by_cases hn : net.connects n s.connected = true
    · rw [if_pos hn, if_pos hn]
      refine (ih _).trans ?_
      unfold nbdBody takeLoad
      by_cases hload : cstr (readInto 1024 s.buffer (net.peer n).first) = ascii "NBD_CLIENT_LOAD"
      · simp [hload]
        omega
      · simp [hload]
    · rw [if_neg hn, if_neg hn]
      simp

/-! ## The gates -/

/-- The acknowledgements the activation hears, where it gets as far as to ask for them. -/
def loadsHeard (c : Setup) (o : Outcomes) (v : Vars) : Nat :=
  if v.count = c.serverLen - 1 ∧ o.vrdInsmod = 0 ∧ v.count ≠ 0 then
    (nbdTexts o.nbdNet false o.nbdNet.stack c.others).count (ascii "NBD_CLIENT_LOAD")
  else 0

/-- `nbd_count` reaches `server_len-1`. -/
def Loaded (c : Setup) (o : Outcomes) (v : Vars) : Prop :=
  v.nbdCount + loadsHeard c o v = c.serverLen - 1

/-- One of the two conditions of the gates that read `dmbd_config` holds. -/
def Asks (c : Setup) (o : Outcomes) (v : Vars) : Prop :=
  v.count = c.serverLen - 1 ∨ Loaded c o v

instance (c : Setup) (o : Outcomes) (v : Vars) : Decidable (Loaded c o v) :=
  inferInstanceAs (Decidable (_ = _))

instance (c : Setup) (o : Outcomes) (v : Vars) : Decidable (Asks c o v) :=
  inferInstanceAs (Decidable (_ ∨ _))

instance (c : Setup) (v : Vars) : Decidable (Readable c v) :=
  inferInstanceAs (Decidable (_ = true))

/-- What the gates write, if they go through. -/
def gateVerdicts (c : Setup) (o : Outcomes) (v : Vars) : List Bytes :=
  (if Loaded c o v then [ascii "success"] else []) ++
    if v.unsuccessFlag = 1 then [ascii "unsuccess" ++ [0]] else []

theorem withRemote_unreadable {c : Setup} {v : Vars} (h : ¬ Readable c v)
    (f : List DmbdConfigRemote → Done Vars Event) : withRemote c v f = ⟨v, [], .crash⟩ := by
  unfold withRemote
  rw [Option.not_isSome_iff_eq_none.mp h]

theorem nbdSetOn_unreadable {c : Setup} {v : Vars} (hr : ¬ Readable c v) (i : Int) :
    nbdSetOn c i v = ⟨v, [], .crash⟩ := withRemote_unreadable hr _

theorem nbdGate_unreadable {c : Setup} {v : Vars} (hl : v.nbdCount = c.serverLen - 1)
    (hr : ¬ Readable c v) : nbdGate c v = ⟨v, [], .crash⟩ := by
  unfold nbdGate
  rw [if_pos hl, withRemote_unreadable hr]

theorem countGate_unreadable {c : Setup} {v : Vars} (hc : v.count = c.serverLen - 1)
    (hr : ¬ Readable c v) (o : Outcomes) : countGate c o v = ⟨v, [], .crash⟩ := by
  unfold countGate
  rw [if_pos hc, withRemote_unreadable hr]

/-- The disk's module adds the acknowledgements to `nbd_count`. -/
theorem loadDisk_state {c : Setup} {o : Outcomes} {v : Vars} (hc : v.count = c.serverLen - 1) :
    (loadDisk c o v).1 = { v with nbdCount := v.nbdCount + loadsHeard c o v } := by
  unfold loadDisk loadsHeard
  by_cases hl : o.vrdInsmod = 0 ∧ v.count ≠ 0
  · rw [if_pos hl, if_pos ⟨hc, hl⟩]
    show (send c .nbdMsgSend o.nbdNet (nbdBody o.nbdNet nbdClientMsg) v).1.vars = _
    rw [send_eq_visit]
    exact visit_nbdBody o.nbdNet nbdClientMsg c.others _
  · rw [if_neg hl, if_neg fun h => hl h.2]
    simp

/-- **The first gate**: where the file can be read it adds the acknowledgements and writes no
verdict. -/
theorem countGate_spec {c : Setup} {o : Outcomes} {v : Vars}
    (hr : v.count = c.serverLen - 1 → Readable c v) :
    (countGate c o v).exit = .go ∧
      (countGate c o v).state.nbdCount = v.nbdCount + loadsHeard c o v ∧
      (countGate c o v).state.unsuccessFlag = v.unsuccessFlag ∧
      (countGate c o v).state.dmbdConfig = v.dmbdConfig := by
  by_cases hc : v.count = c.serverLen - 1
  · unfold countGate
    rw [if_pos hc]
    obtain ⟨remote, hrem⟩ := withRemote_readable (hr hc) fun remote =>
      .ok { (loadDisk c o (activate c o remote 0 v).1).1 with count := 0 }
        ((activate c o remote 0 v).2 ++ (loadDisk c o (activate c o remote 0 v).1).2)
    obtain ⟨cmd, ha⟩ := (activate_keeps c o remote 0 v).1
    have hd := loadDisk_state (c := c) (o := o) (v := { v with bestioCmd := cmd }) hc
    rw [hrem, ha, hd]
    exact ⟨rfl, rfl, rfl, rfl⟩
  · rw [countGate_ne hc]
    have hnone : loadsHeard c o v = 0 := if_neg fun h => hc h.1
    rw [hnone]
    exact ⟨rfl, (Int.add_zero _).symm, rfl, rfl⟩

theorem verdicts_countGate (c : Setup) (o : Outcomes) (v : Vars) :
    verdicts (countGate c o v).events = [] :=
  verdicts_eq_nil fun _ he => (mem_countGate he).not_verdict

/-- The last gate. -/
theorem verdicts_unsuccessGate (v : Vars) :
    verdicts (unsuccessGate v).events =
      if v.unsuccessFlag = 1 then [ascii "unsuccess" ++ [0]] else [] := by
  unfold unsuccessGate
  by_cases hu : v.unsuccessFlag = 1
  · rw [if_pos hu, if_pos hu]
    rfl
  · rw [if_neg hu, if_neg hu]
    rfl

/-- **Which verdicts the gates write**: none where they have to read a file that cannot be read. -/
theorem gates_verdicts (c : Setup) (o : Outcomes) (v : Vars) :
    verdicts (gates c o v).events =
      if Asks c o v → Readable c v then gateVerdicts c o v else [] := by
  by_cases hc : v.count = c.serverLen - 1 → Readable c v
  · obtain ⟨hgo, hnbd, hflag, hfile⟩ := countGate_spec (o := o) hc
    have hread : Readable c (countGate c o v).state ↔ Readable c v := by
      unfold Readable
      rw [hfile]
    have hpass : ((countGate c o v).andThen (nbdGate c)).exit =
        (nbdGate c (countGate c o v).state).exit := by rw [Done.andThen_go hgo]
    have hevents : verdicts ((countGate c o v).andThen (nbdGate c)).events =
        verdicts (nbdGate c (countGate c o v).state).events := by
      rw [Done.andThen_go hgo, verdicts_append, verdicts_countGate, List.nil_append]
    unfold gates
    by_cases hl : Loaded c o v
    · have hl' : (countGate c o v).state.nbdCount = c.serverLen - 1 := hnbd.trans hl
      by_cases hr : Readable c v
      · have hnbdGate := nbdGate_eq hl' (hread.mpr hr)
        rw [Done.andThen_go (by rw [hpass, hnbdGate]; rfl), verdicts_append, hevents,
          verdicts_unsuccessGate, Done.andThen_go hgo, hnbdGate, if_pos fun _ => hr]
        unfold gateVerdicts
        rw [if_pos hl]
        show _ ++ (if (countGate c o v).state.unsuccessFlag = 1 then _ else _) = _
        rw [hflag]
        rfl
      · have hnbdGate := nbdGate_unreadable hl' (hread.not.mpr hr)
        rw [Done.andThen_stop (by rw [hpass, hnbdGate]; exact Exit.noConfusion), hevents, hnbdGate,
          if_neg fun h => hr (h (Or.inr hl))]
        rfl
    · have hl' : (countGate c o v).state.nbdCount ≠ c.serverLen - 1 := fun h =>
        hl (hnbd.symm.trans h)
      rw [Done.andThen_go (by rw [hpass, nbdGate_ne hl']; rfl), verdicts_append, hevents,
        verdicts_unsuccessGate, Done.andThen_go hgo, nbdGate_ne hl',
        if_pos fun ha => hc (ha.resolve_right hl)]
      unfold gateVerdicts
      rw [if_neg hl]
      show [] ++ (if (countGate c o v).state.unsuccessFlag = 1 then _ else _) = _
      rw [hflag]
  · obtain ⟨hcount, hr⟩ := Classical.not_imp.mp hc
    unfold gates
    rw [countGate_unreadable hcount hr, Done.andThen_stop Exit.noConfusion,
      Done.andThen_stop Exit.noConfusion, if_neg fun h => hr (h (Or.inl hcount))]
    rfl

/-! ## The handlers that get to the gates -/

/-- `nbd_config` can be written at each own entry, the first entry having number `n`. -/
def PrintsOwn (c : Setup) (o : Outcomes) (remote : List DmbdConfigRemote) (n : Nat) : Prop :=
  ∀ k < remote.length, ipOf (remote.drop k) = c.myNode.ip →
    Prints c (o.nbdFopen (n + k)) (nbdConfigMsg (remote.drop k))

theorem printsOwn_cons {c : Setup} {o : Outcomes} {r : DmbdConfigRemote}
    {rs : List DmbdConfigRemote} {n : Nat} :
    PrintsOwn c o (r :: rs) n ↔
      (ipOf (r :: rs) = c.myNode.ip → Prints c (o.nbdFopen n) (nbdConfigMsg (r :: rs))) ∧
        PrintsOwn c o rs (n + 1) := by
  constructor
  · intro h
    refine ⟨h 0 (Nat.succ_pos _), fun k hk hip => ?_⟩
    rw [show n + 1 + k = n + (k + 1) by omega]
    exact h (k + 1) (Nat.succ_lt_succ hk) hip
  · rintro ⟨h₀, h⟩ k hk hip
    cases k with
    | zero => exact h₀ hip
    | succ k =>
      rw [show n + (k + 1) = n + 1 + k by omega]
      exact h k (Nat.lt_of_succ_lt_succ hk) hip

theorem startNbdServers_go (c : Setup) (o : Outcomes) :
    ∀ (rs : List DmbdConfigRemote) (n : Nat) (v : Vars),
      (startNbdServers c o rs n v).exit = .go ↔ PrintsOwn c o rs n
  | [], _, _ => iff_of_true rfl fun k hk => absurd hk (Nat.not_lt_zero k)
  | r :: rs, n, v => by
    rw [printsOwn_cons]
    unfold startNbdServers
    by_cases hip : ipOf (r :: rs) = c.myNode.ip
    · rw [if_pos hip, Done.andThen_exit_go_iff, Done.andThen_exit_go_iff,
        startNbdServers_go c o rs (n + 1)]
      unfold printNbdConfig
      rw [printFile_go_iff]
      exact ⟨fun h => ⟨fun _ => h.1, h.2.2⟩, fun h => ⟨h.1 hip, rfl, h.2⟩⟩
    · rw [if_neg hip]
      exact (startNbdServers_go c o rs (n + 1) v).trans
        (and_iff_right fun h => absurd h hip).symm

/-- `mount_file` can be written with this ip. -/
def PrintsMount (c : Setup) (o : Outcomes) (ip : Option Bytes) : Prop :=
  Prints c o.mountFopen (mountMsg ip)

instance (c : Setup) (o : Outcomes) (ip : Option Bytes) : Decidable (PrintsMount c o ip) :=
  inferInstanceAs (Decidable (Prints _ _ _))

theorem printMountFile_go_iff {c : Setup} {o : Outcomes} {ip : Option Bytes} {v : Vars} :
    (printMountFile c o ip v).exit = .go ↔ PrintsMount c o ip := printFile_go_iff

/-- The handler of a message that is no request gets to the gates. -/
def ReachesGates (c : Setup) (o : Outcomes) (v : Vars) : Prop :=
  match commandOf c (cstr v.buffer) with
  | .setConfig => v.successFlag ≠ 1 ∧ o.configInsmod = 0 ∧
      ∃ remote, readDMBDRemote c.json (fileRead o v).dmbdConfig = some remote ∧
        PrintsOwn c o remote 0
  | .mount => ¬ o.mount < 0 ∧ PrintsMount c o c.myNode.ip
  | .mountSetOn => PrintsMount c o (dmbdMountIp c (c.json.tokenerParse (cstr v.buffer)))
  | .nbdSetOn => Readable c v
  | _ => True

theorem loadConfig_go {c : Setup} {o : Outcomes} {i : Int} {remote : List DmbdConfigRemote}
    {v : Vars} :
    (loadConfig c o i remote v).exit = .go ↔ o.configInsmod = 0 ∧ PrintsOwn c o remote 0 := by
  unfold loadConfig
  by_cases hi : o.configInsmod ≠ 0
  · simp only [if_pos hi]
    exact iff_of_false Exit.noConfusion fun h => hi h.1
  · have hservers := startNbdServers_go c o remote 0
      { v with bestioCmd := ownBestioCmd c remote v.bestioCmd }
    simp only [if_neg hi, Done.ok_andThen]
    rw [Done.andThen_exit_go_iff, and_iff_right (not_not.mp hi), ← hservers]
    exact and_iff_left rfl

/-- The configuration handler gets to the gates with a file that can be read. -/
theorem setConfig_go (c : Setup) (o : Outcomes) (i : Int) (v : Vars) :
    ((setConfig c o i v).exit = .go ↔ v.successFlag ≠ 1 ∧ o.configInsmod = 0 ∧
      ∃ remote, readDMBDRemote c.json (fileRead o v).dmbdConfig = some remote ∧
        PrintsOwn c o remote 0) ∧
      ((setConfig c o i v).exit = .go → Readable c (setConfig c o i v).state) := by
  by_cases hs : v.successFlag = 1
  · unfold setConfig
    rw [if_pos hs]
    exact ⟨iff_of_false Exit.noConfusion fun h => h.1 hs, Exit.noConfusion⟩
  · obtain ⟨es, _, heq⟩ := setConfig_stored (c := c) (o := o) hs i
    rw [heq, Done.ok_andThen]
    unfold withRemote
    cases hr : readDMBDRemote c.json (fileRead o v).dmbdConfig with
    | none =>
      refine ⟨iff_of_false Exit.noConfusion ?_, Exit.noConfusion⟩
      rintro ⟨_, _, remote, h, _⟩
      cases h
    | some remote =>
      refine ⟨loadConfig_go.trans ⟨fun h => ⟨hs, h.1, remote, rfl, h.2⟩, ?_⟩, fun hgo => ?_⟩
      · rintro ⟨_, hi, _, h, hf⟩
        cases h
        exact ⟨hi, hf⟩
      · have hfile := (loadConfig_file c o i remote (fileRead o v)).dmbdConfig
        unfold Readable
        rw [hfile, hr]
        rfl

theorem mountHandler_go (c : Setup) (o : Outcomes) (myobj : Option Json) (v : Vars) :
    ((mountHandler c o myobj v).exit = .go ↔ ¬ o.mount < 0 ∧ PrintsMount c o c.myNode.ip) ∧
      (mountHandler c o myobj v).state.dmbdConfig = v.dmbdConfig := by
  constructor
  · by_cases hm : o.mount < 0
    · rw [mountHandler_fails hm]
      exact iff_of_false Exit.noConfusion fun h => h.1 hm
    · rw [mountHandler_eq hm, Done.andThen_exit_go_iff, Done.andThen_exit_go_iff, Done.ok,
        printMountFile_go_iff]
      exact ⟨fun h => ⟨hm, h.1.2⟩, fun h => ⟨⟨rfl, h.2⟩, rfl⟩⟩
  · refine (mountHandler_keeps (P := fun w => w.dmbdConfig = v.dmbdConfig) (Q := fun _ => True) rfl
      (fun _ => rfl) (fun _ _ => trivial) (fun _ _ _ _ => trivial) trivial trivial
      fun w hw => ⟨?_, fun _ _ => trivial⟩).1
    rwa [mountMsgSend_vars]

/-- **When a handler gets to the gates**, and whether they can then read the file. -/
theorem handler_go {c : Setup} {o : Outcomes} {i : Int} {v : Vars}
    (h : commandOf c (cstr v.buffer) ≠ .userSetConfig) :
    ((handler c o i (cstr v.buffer) v).exit = .go ↔ ReachesGates c o v) ∧
      ((handler c o i (cstr v.buffer) v).exit = .go →
        (Readable c (handler c o i (cstr v.buffer) v).state ↔
          commandOf c (cstr v.buffer) = .setConfig ∨ Readable c v)) := by
  unfold handler ReachesGates
  cases hc : commandOf c (cstr v.buffer) with
  | setConfig =>
    obtain ⟨hgo, hread⟩ := setConfig_go c o i v
    exact ⟨hgo, fun hx => iff_of_true (hread hx) (Or.inl rfl)⟩
  | userSetConfig => exact absurd hc h
  | controllerSetConfig =>
    exact ⟨iff_of_true rfl trivial, fun _ => (or_iff_right Command.noConfusion).symm⟩
  | mount =>
    obtain ⟨hgo, hfile⟩ := mountHandler_go c o (c.json.tokenerParse (cstr v.buffer)) v
    refine ⟨hgo, fun _ => (Iff.of_eq ?_).trans (or_iff_right Command.noConfusion).symm⟩
    unfold Readable
    rw [hfile]
  | mountSetOn =>
    have hfile : (mountSetOn c o (c.json.tokenerParse (cstr v.buffer)) v).state.dmbdConfig =
        v.dmbdConfig :=
      (printMountFile_keeps (P := fun w => w.dmbdConfig = v.dmbdConfig) (Q := fun _ => True) rfl
        (fun _ => rfl) trivial trivial).1
    refine ⟨printMountFile_go_iff, fun _ => (Iff.of_eq ?_).trans
      (or_iff_right Command.noConfusion).symm⟩
    unfold Readable
    rw [hfile]
  | nbdSetOn =>
    have hgo : (nbdSetOn c i v).exit = .go ↔ Readable c v := by
      by_cases hr : Readable c v
      · rw [nbdSetOn_readable hr]
        exact iff_of_true rfl hr
      · rw [nbdSetOn_unreadable hr]
        exact iff_of_false Exit.noConfusion hr
    refine ⟨hgo, fun hx => (Iff.of_eq ?_).trans (or_iff_right Command.noConfusion).symm⟩
    rw [nbdSetOn_readable (hgo.mp hx)]
    rfl
  | unknown =>
    exact ⟨iff_of_true rfl trivial, fun _ => (or_iff_right Command.noConfusion).symm⟩

/-! ## One message -/

/-- A request finds the file where the gates need it, and either the acknowledgements are complete
or there is a refusal, not both. -/
def AnswersOnce (c : Setup) (o : Outcomes) (v : Vars) : Prop :=
  (Asks c o (answered c o v) → Readable c v) ∧
    (Loaded c o (answered c o v) ↔ (answered c o v).unsuccessFlag ≠ 1)

/-- Another message gets to the gates, which find their file where they need it, and a counter or
a flag that is set already. -/
def Speaks (c : Setup) (o : Outcomes) (v : Vars) : Prop :=
  ReachesGates c o v ∧
    (Asks c o v → commandOf c (cstr v.buffer) = .setConfig ∨ Readable c v) ∧
      (Loaded c o v ∨ v.unsuccessFlag = 1)

theorem gateVerdicts_length (c : Setup) (o : Outcomes) (v : Vars) :
    (gateVerdicts c o v).length = 1 ↔ (Loaded c o v ↔ v.unsuccessFlag ≠ 1) := by
  unfold gateVerdicts
  by_cases hl : Loaded c o v
  · by_cases hu : v.unsuccessFlag = 1
    · simp [hl, hu]
    · simp [hl, hu]
  · by_cases hu : v.unsuccessFlag = 1
    · simp [hl, hu]
    · simp [hl, hu]

theorem gateVerdicts_eq_nil (c : Setup) (o : Outcomes) (v : Vars) :
    gateVerdicts c o v = [] ↔ ¬ (Loaded c o v ∨ v.unsuccessFlag = 1) := by
  unfold gateVerdicts
  by_cases hl : Loaded c o v
  · simp [hl]
  · by_cases hu : v.unsuccessFlag = 1
    · simp [hu]
    · simp [hl, hu]

/-- The gates see the state of a round only. -/
theorem SameRound.gates {c : Setup} {v w : Vars} (h : SameRound v w) (o : Outcomes) :
    (Loaded c o w ↔ Loaded c o v) ∧ (Asks c o w ↔ Asks c o v) ∧
      gateVerdicts c o w = gateVerdicts c o v := by
  have hheard : loadsHeard c o w = loadsHeard c o v := by
    unfold loadsHeard
    rw [h.count]
  have hl : Loaded c o w ↔ Loaded c o v := by
    unfold Loaded
    rw [hheard, h.nbdCount]
  refine ⟨hl, ?_, ?_⟩
  · unfold Asks
    rw [h.count, hl]
  · unfold gateVerdicts
    rw [h.unsuccessFlag]
    exact congrArg (· ++ _) (if_congr hl rfl rfl)

/-- The verdicts of a request. -/
theorem handle_user_verdicts {c : Setup} {v : Vars}
    (h : commandOf c (cstr v.buffer) = .userSetConfig) (o : Outcomes) (i : Int) :
    verdicts (handle c o i v).events =
      if Asks c o (answered c o v) → Readable c v then gateVerdicts c o (answered c o v)
      else [] := by
  obtain ⟨hgo, _, hsender⟩ := userSetConfig_spec c o v
  rw [handle_user h, Done.andThen_go hgo, verdicts_append,
    verdicts_eq_nil fun e he => (hsender e he).not_verdict, userSetConfig_state, gates_verdicts]
  rfl

/-- **How many verdicts a message is answered with**: a request gets exactly one, and another
message none, just in these cases. -/
theorem verdicts_iff (c : Setup) (o : Outcomes) (i : Int) (v : Vars) :
    (commandOf c (cstr v.buffer) = .userSetConfig →
      ((verdicts (handle c o i v).events).length = 1 ↔ AnswersOnce c o v)) ∧
      (commandOf c (cstr v.buffer) ≠ .userSetConfig →
        (verdicts (handle c o i v).events = [] ↔ ¬ Speaks c o v)) := by
  constructor
  · intro hcmd
    rw [handle_user_verdicts hcmd]
    unfold AnswersOnce
    by_cases hr : Asks c o (answered c o v) → Readable c v
    · rw [if_pos hr, gateVerdicts_length, and_iff_right hr]
    · rw [if_neg hr]
      exact iff_of_false (by simp) fun h => hr h.1
  · intro hcmd
    have hstill := handler_still (o := o) (i := i) (v := v) hcmd
    obtain ⟨hgo, hread⟩ := handler_go (o := o) (i := i) hcmd
    obtain ⟨_, hasks, hverdicts⟩ := hstill.1.gates (c := c) o
    have hplain : verdicts (handler c o i (cstr v.buffer) v).events = [] :=
      verdicts_eq_nil fun e he => (hstill.2 e he).not_verdict
    unfold handle Speaks
    by_cases hx : (handler c o i (cstr v.buffer) v).exit = .go
    · rw [Done.andThen_go hx, verdicts_append, hplain, List.nil_append, gates_verdicts,
        if_congr (imp_congr hasks (hread hx)) hverdicts rfl, and_iff_right (hgo.mp hx)]
      by_cases hr : Asks c o v → commandOf c (cstr v.buffer) = .setConfig ∨ Readable c v
      · rw [if_pos hr, gateVerdicts_eq_nil, and_iff_right hr]
      · rw [if_neg hr]
        exact iff_of_true rfl fun h => hr h.1
    · rw [Done.andThen_stop hx, hplain]
      exact iff_of_true rfl fun h => hx (hgo.mpr h.1)

/-- The controller of two servers with its client's request in `buffer`. -/
def asking : Vars := afterRead accepted (some (userText ++ [0]))

/-- The other server cannot be reached. -/
def peerDown : Outcomes :=
  { allOk with msgNet := { msgOk with peer := fun _ => ⟨false, 0, none, none⟩ } }

/-- Then the request gets no verdict. -/
theorem request_without_verdict :
    commandOf (twoServers sampleJson) (cstr asking.buffer) = .userSetConfig ∧
      verdicts (handle (twoServers sampleJson) peerDown 4 asking).events = [] := by
  constructor
  · decide +kernel
  · decide +kernel

/-- Where every call succeeds and the server answers it gets one. -/
theorem verdicts_two :
    (verdicts (handle (twoServers sampleJson) allOk 4 asking).events).length = 1 := by
  have hcmd : commandOf (twoServers sampleJson) (cstr asking.buffer) = .userSetConfig := by
    decide +kernel
  refine ((verdicts_iff (twoServers sampleJson) allOk 4 asking).1 hcmd).mpr ?_
  unfold AnswersOnce
  decide +kernel

end JcmController.Controller
