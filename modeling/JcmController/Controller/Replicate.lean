import JcmController.Controller.Framing

/-!
# Replication of `dmbd_config`

The coordinator's `msg_send` sends what one read of 4096 bytes finds in its file, with a NUL, or
what `config_index` held before where it cannot open the file. The peer's main loop reads at most
4096 bytes at a time and writes each string it reads over its own file, if it can open it and
unless its `success_flag` is set.

* `config_sent_text`: what the coordinator sends.
* `step_file`: what the peer's file holds after a message.
* `step_success`: what the peer has done when it answers "success".
* **`replication_exact_iff`**: when the peer that answered "success" ends with the coordinator's
  text; `replicates_whole` says what that is where all calls succeed: the text is shorter than the
  buffers, or as long and the NUL is ignored.
-/

namespace JcmController.Controller

open JcmController.Lib

/-! ## The coordinator -/

/-- A configuration among the events of `msg_send` is what one read finds in the file. -/
def SendsFile (net : Net) (file : Option Bytes) (e : Event) : Prop :=
  ∀ n msg, e = .config n msg → msg = cstr (configIndex net n file) ++ [0]

theorem sendsFile_of_ne {net : Net} {file : Option Bytes} {e : Event}
    (h : ∀ n msg, e ≠ .config n msg) : SendsFile net file e := fun n msg he => absurd he (h n msg)

theorem answerEvents_sendsFile (net : Net) (file : Option Bytes) (f : SendFn) (n : Nat)
    (r : Option Bytes) : ∀ e ∈ answerEvents f n r, SendsFile net file e := by
  cases r with
  | none => exact fun _ he => absurd he List.not_mem_nil
  | some bs =>
    intro e he
    rw [List.mem_singleton.mp he]
    exact sendsFile_of_ne fun _ _ => Event.noConfusion

theorem configExchange_sendsFile (net : Net) (n : Nat) (v : Vars) (first : Bytes) :
    ∀ e ∈ configExchange net n v first, SendsFile net v.dmbdConfig e := by
  intro e he
  unfold configExchange at he
  by_cases hf : cstr first = ascii "CONTROL_SET_ON"
  · rw [if_pos hf] at he
    rcases List.mem_append.mp he with he | he
    · by_cases hd : (indexFile net n v.dmbdConfig).isSome = true
      · rw [if_pos hd] at he
        rw [List.mem_singleton.mp he]
        exact sendsFile_of_ne fun _ _ => Event.noConfusion
      · rw [if_neg hd] at he
        exact absurd he List.not_mem_nil
    · rw [List.mem_singleton.mp he]
      rintro _ _ ⟨⟩
      rfl
  · rw [if_neg hf] at he
    exact absurd he List.not_mem_nil

/-- **What the coordinator sends**: what one read of 4096 bytes finds in its file, and a NUL. -/
theorem config_sent {c : Setup} {net : Net} {buf : Bytes} {w : Vars} {n : Nat} {msg : Bytes}
    (h : .config n msg ∈ (msgSend c net buf w).2) :
    msg = cstr (configIndex net n w.dmbdConfig) ++ [0] := by
  have hkeep : (msgSend c net buf w).1.vars.dmbdConfig = w.dmbdConfig ∧
      ∀ e ∈ (msgSend c net buf w).2, SendsFile net w.dmbdConfig e := by
    refine send_keeps (P := fun v => v.dmbdConfig = w.dmbdConfig)
      (fun m s hs => ⟨?_, fun e he => ?_⟩)
      (fun _ _ => sendsFile_of_ne fun _ _ => Event.noConfusion)
      (sendsFile_of_ne fun _ _ => Event.noConfusion) rfl
    · exact (takeVerdict_same _ s.vars).2.2.trans hs
    · unfold msgBody at he
      rcases List.mem_append.mp he with he | he
      · rcases List.mem_append.mp he with he | he
        · rcases List.mem_cons.mp he with rfl | he
          · exact sendsFile_of_ne fun _ _ => Event.noConfusion
          · exact answerEvents_sendsFile net w.dmbdConfig _ _ _ e he
        · rw [← hs]
          exact configExchange_sendsFile net m s.vars _ e he
      · exact answerEvents_sendsFile net w.dmbdConfig _ _ _ e he
  exact hkeep.2 _ h n msg rfl

/-- What `msg_send` finds to send of a file with this text. -/
def sentText (net : Net) (n : Nat) (text : Bytes) : Bytes :=
  if net.indexOpen n then text.take 4096 else cstr (net.index n)

theorem config_sent_text {c : Setup} {net : Net} {buf : Bytes} {w : Vars} {n : Nat}
    {msg text : Bytes} (h : .config n msg ∈ (msgSend c net buf w).2)
    (hfile : w.dmbdConfig = some text) (htext : NulFree text) :
    msg = sentText net n text ++ [0] := by
  rw [config_sent h, hfile]
  unfold configIndex indexFile sentText
  by_cases ho : net.indexOpen n = true
  · rw [if_pos ho, if_pos ho, cstr_readTerm_some,
      cstr_eq_self fun b hb => htext b (List.mem_of_mem_take hb)]
  · rw [if_neg ho, if_neg ho]
    rfl

theorem sentText_nulFree {net : Net} {n : Nat} {text : Bytes} (htext : NulFree text) :
    NulFree (sentText net n text) := by
  unfold sentText
  by_cases ho : net.indexOpen n = true
  · rw [if_pos ho]
    exact fun b hb => htext b (List.mem_of_mem_take hb)
  · rw [if_neg ho]
    exact nulFree_cstr _

/-- `config_index` is a `char[4096]`. -/
theorem sentText_length {net : Net} {n : Nat} (hindex : (net.index n).length ≤ 4096)
    (text : Bytes) : (sentText net n text).length ≤ 4096 := by
  unfold sentText
  by_cases ho : net.indexOpen n = true
  · rw [if_pos ho, List.length_take]
    exact Nat.min_le_left _ _
  · rw [if_neg ho]
    exact (cstr_length_le _).trans hindex

/-- The reads in which the peer receives it. -/
theorem config_reads {sent : Bytes} (hlen : sent.length ≤ 4096) :
    readsOf 4096 (sent ++ [0]) =
      if sent.length < 4096 then [sent ++ [0]] else [sent, [0]] := by
  have hall : (sent ++ [0]).length = sent.length + 1 := List.length_append
  by_cases h : sent.length < 4096
  · rw [if_pos h, readsOf_short (by simp) (by omega)]
  · have htake : sent.length = 4096 := by omega
    rw [if_neg h, readsOf_long (by decide) (by omega) (by omega),
      List.take_append_of_le_length (by omega), List.take_of_length_le hlen,
      List.drop_append_of_le_length (by omega), List.drop_of_length_le hlen, List.nil_append]

/-! ## The peer's answer -/

/-- `dmbd_config` can be read. -/
def Readable (c : Setup) (v : Vars) : Prop := (readDMBDRemote c.json v.dmbdConfig).isSome

theorem withRemote_readable {c : Setup} {v : Vars} (h : Readable c v)
    (f : List DmbdConfigRemote → Done Vars Event) : ∃ remote, withRemote c v f = f remote := by
  obtain ⟨remote, hr⟩ := Option.isSome_iff_exists.mp h
  refine ⟨remote, ?_⟩
  unfold withRemote
  rw [hr]

/-- Where it plays no part what is read. -/
theorem withRemote_const {c : Setup} {v : Vars} (h : Readable c v) (r : Done Vars Event) :
    withRemote c v (fun _ => r) = r := by
  obtain ⟨_, hr⟩ := withRemote_readable h fun _ => r
  exact hr

theorem nbdSetOn_readable {c : Setup} {v : Vars} (hr : Readable c v) (i : Int) :
    nbdSetOn c i v = .ok v [.reply i (ascii "NBD_CLIENT_LOAD" ++ [0])] := withRemote_const hr _

/-- The second gate with `nbd_count` complete. -/
theorem nbdGate_eq {c : Setup} {v : Vars} (hl : v.nbdCount = c.serverLen - 1)
    (hr : Readable c v) : nbdGate c v = .ok { v with successFlag := 1, nbdCount := 0 }
      [.verdict v.clientSock (ascii "success")] := by
  unfold nbdGate
  rw [if_pos hl, withRemote_const hr]

/-- What the configuration handler leaves alone after it has read the file. -/
structure SameFile (v w : Vars) : Prop where
  dmbdConfig : w.dmbdConfig = v.dmbdConfig
  successFlag : w.successFlag = v.successFlag

theorem SameFile.refl (v : Vars) : SameFile v v := ⟨rfl, rfl⟩

theorem startNbdServers_file (c : Setup) (o : Outcomes) (rs : List DmbdConfigRemote) (n : Nat)
    (v : Vars) :
    SameFile v (startNbdServers c o rs n v).state ∧
      ∀ i msg, .reply i msg ∉ (startNbdServers c o rs n v).events := by
  obtain ⟨hs, hr⟩ := startNbdServers_keeps (c := c) (o := o) (P := SameFile v)
    (Q := fun e => ∀ i msg, e ≠ .reply i msg) (fun _ _ h => ⟨h.dmbdConfig, h.successFlag⟩)
    (fun _ _ => Event.noConfusion) (fun _ _ => Event.noConfusion)
    (fun _ _ _ => Event.noConfusion) rs n v (SameFile.refl v)
  exact ⟨hs, fun i msg h => hr _ h i msg rfl⟩

theorem loadConfig_file (c : Setup) (o : Outcomes) (i : Int) (remote : List DmbdConfigRemote)
    (v : Vars) : SameFile v (loadConfig c o i remote v).state := by
  unfold loadConfig
  by_cases hi : o.configInsmod ≠ 0
  · simp only [if_pos hi]
    exact ⟨rfl, rfl⟩
  · obtain ⟨hs, _⟩ := startNbdServers_file c o remote 0
      { v with bestioCmd := ownBestioCmd c remote v.bestioCmd }
    have hservers : SameFile v (startNbdServers c o remote 0
        { v with bestioCmd := ownBestioCmd c remote v.bestioCmd }).state :=
      ⟨hs.dmbdConfig, hs.successFlag⟩
    simp only [if_neg hi, Done.ok_andThen]
    refine (Done.Keeps.andThen (P := SameFile v) (Q := fun _ => True) ?_ fun h => ?_).1
    · exact ⟨hservers, fun _ _ => trivial⟩
    · exact ⟨h, fun _ _ => trivial⟩

/-- An answer of the configuration handler is its last act. -/
theorem loadConfig_reply {c : Setup} {o : Outcomes} {i j : Int}
    {remote : List DmbdConfigRemote} {v : Vars} {msg : Bytes}
    (h : .reply j msg ∈ (loadConfig c o i remote v).events) :
    (loadConfig c o i remote v).exit = .go ∧ SameFile v (loadConfig c o i remote v).state := by
  unfold loadConfig at h ⊢
  by_cases hi : o.configInsmod ≠ 0
  · simp only [if_pos hi] at h
    simp at h
  · simp only [if_neg hi] at h ⊢
    obtain ⟨hs, hr⟩ := startNbdServers_file c o remote 0
      { v with bestioCmd := ownBestioCmd c remote v.bestioCmd }
    rcases Done.mem_andThen.mp h with h | ⟨hgo, _⟩
    · rw [Done.ok_andThen] at h
      rcases List.mem_append.mp h with h | h
      · simp at h
      · exact absurd h (hr j msg)
    · rw [Done.andThen_go hgo]
      exact ⟨rfl, hs.dmbdConfig, hs.successFlag⟩

/-- The state in which the handler reads its file back. -/
def stored (o : Outcomes) (v : Vars) : Vars :=
  { v with dmbdConfig := some ((cstr v.buffer).take o.configWritten) }

/-- What the configuration handler reads back: the file it has written, or the old one. -/
def fileRead (o : Outcomes) (v : Vars) : Vars := if o.configOpen then stored o v else v

/-- What the handler does once it has written the file. -/
theorem setConfig_stored {c : Setup} {o : Outcomes} {v : Vars} (hs : v.successFlag ≠ 1) (i : Int) :
    ∃ es, (∀ e ∈ es, e = .opened .config) ∧
      setConfig c o i v = (Done.ok (fileRead o v) es).andThen fun w =>
        withRemote c w fun remote => loadConfig c o i remote w := by
  unfold setConfig writeConfig fileRead
  rw [if_neg hs]
  by_cases ho : o.configOpen = true
  · rw [if_pos ho, if_pos ho]
    exact ⟨[.opened .config], fun e he => List.mem_singleton.mp he, rfl⟩
  · rw [if_neg ho, if_neg ho]
    exact ⟨[], fun e he => absurd he List.not_mem_nil, rfl⟩

/-- The handler leaves the file as it is when it is read back. -/
theorem setConfig_file {c : Setup} {o : Outcomes} {v : Vars} (hs : v.successFlag ≠ 1) (i : Int) :
    (setConfig c o i v).state.dmbdConfig = (fileRead o v).dmbdConfig := by
  obtain ⟨es, _, heq⟩ := setConfig_stored (c := c) (o := o) hs i
  rw [heq, Done.ok_andThen]
  unfold withRemote
  cases readDMBDRemote c.json (fileRead o v).dmbdConfig with
  | none => rfl
  | some remote => exact (loadConfig_file c o i remote (fileRead o v)).dmbdConfig

theorem fileRead_flag (o : Outcomes) (v : Vars) : (fileRead o v).successFlag = v.successFlag := by
  unfold fileRead
  split_ifs <;> rfl

/-- What the handler has done when it answers. -/
theorem setConfig_reply {c : Setup} {o : Outcomes} {i j : Int} {v : Vars} {msg : Bytes}
    (h : .reply j msg ∈ (setConfig c o i v).events) :
    v.successFlag ≠ 1 ∧ (setConfig c o i v).exit = .go ∧ Readable c (fileRead o v) ∧
      SameFile (fileRead o v) (setConfig c o i v).state := by
  by_cases hs : v.successFlag = 1
  · unfold setConfig at h
    rw [if_pos hs] at h
    exact absurd h List.not_mem_nil
  · obtain ⟨es, hes, heq⟩ := setConfig_stored (c := c) (o := o) hs i
    rw [heq, Done.ok_andThen] at h ⊢
    have h : .reply j msg ∈ (withRemote c (fileRead o v) fun remote =>
        loadConfig c o i remote (fileRead o v)).events := by
      rcases List.mem_append.mp h with h | h
      · cases hes _ h
      · exact h
    have hread : Readable c (fileRead o v) := by
      unfold withRemote at h
      unfold Readable
      cases hr : readDMBDRemote c.json (fileRead o v).dmbdConfig with
      | none =>
        rw [hr] at h
        exact absurd h List.not_mem_nil
      | some remote => rfl
    obtain ⟨remote, hr⟩ := withRemote_readable hread fun remote =>
      loadConfig c o i remote (fileRead o v)
    rw [hr] at h ⊢
    obtain ⟨hgo, hfile⟩ := loadConfig_reply h
    exact ⟨hs, hgo, hread, hfile⟩

/-- Of the handlers only the one of configurations answers "success". -/
theorem handler_success {c : Setup} {o : Outcomes} {i j : Int} {text : Bytes} {v : Vars}
    (h : .reply j (nulTerminated "success") ∈ (handler c o i text v).events) :
    commandOf c text = .setConfig := by
  unfold handler at h
  cases hc : commandOf c text with
  | setConfig => rfl
  | userSetConfig =>
    rw [hc] at h
    exact absurd ((userSetConfig_spec c o v).2.2 _ h) id
  | controllerSetConfig =>
    rw [hc] at h
    have hne : nulTerminated "success" ≠ ascii "CONTROL_SET_ON" ++ [0] := by decide
    exact absurd (Event.reply.inj (List.mem_singleton.mp h)).2 hne
  | mount =>
    rw [hc] at h
    exact absurd ((mountHandler_silent c o _ v).2 _ h) id
  | mountSetOn =>
    rw [hc] at h
    exact absurd ((mountSetOn_silent c o _ v).2 _ h) id
  | nbdSetOn =>
    rw [hc] at h
    obtain ⟨_, h⟩ := mem_withRemote h
    have hne : nulTerminated "success" ≠ ascii "NBD_CLIENT_LOAD" ++ [0] := by decide
    exact absurd (Event.reply.inj (List.mem_singleton.mp h)).2 hne
  | unknown =>
    rw [hc] at h
    exact absurd h List.not_mem_nil

theorem gates_not_reply {c : Setup} {o : Outcomes} {v : Vars} {j : Int} {msg : Bytes} :
    .reply j msg ∉ (gates c o v).events := by
  intro h
  rcases Done.mem_andThen.mp h with h | ⟨_, h⟩
  · rcases Done.mem_andThen.mp h with h | ⟨_, h⟩
    · rcases mem_countGate h with ⟨_, _, _, h⟩ | h
      · cases h
      · exact h
    · cases mem_nbdGate h
  · cases mem_unsuccessGate h

/-- The state after the configuration handler answered "success" to `text`. -/
structure Accepted (c : Setup) (text : Bytes) (v w : Vars) : Prop where
  command : commandOf c text = .setConfig
  readable : Readable c w
  flag : w.successFlag = v.successFlag
  notDone : v.successFlag ≠ 1
  round : SameRound v w

/-- **What a "success" means**: a configuration was handled, and the file can be read. -/
theorem success_reply {c : Setup} {o : Outcomes} {i j : Int} {v : Vars}
    (h : .reply j (nulTerminated "success") ∈ (handle c o i v).events) :
    (handler c o i (cstr v.buffer) v).exit = .go ∧
      Accepted c (cstr v.buffer) v (handler c o i (cstr v.buffer) v).state := by
  rcases Done.mem_andThen.mp h with h | ⟨_, h⟩
  · have hcmd := handler_success h
    have hround := (handler_still (c := c) (o := o) (i := i) (v := v)
      (hcmd.trans_ne Command.noConfusion)).1
    have heq : handler c o i (cstr v.buffer) v = setConfig c o i v := by
      unfold handler
      rw [hcmd]
    rw [heq] at h hround ⊢
    obtain ⟨hs, hgo, hread, hfile⟩ := setConfig_reply h
    refine ⟨hgo, hcmd, ?_, hfile.successFlag.trans (fileRead_flag o v), hs, hround⟩
    unfold Readable at hread ⊢
    rwa [hfile.dmbdConfig]
  · exact absurd h gates_not_reply

/-! ## The gates after it -/

/-- Alone, a controller sends nothing. -/
theorem loadDisk_alone {c : Setup} (h : c.others = []) (o : Outcomes) (v : Vars) :
    (loadDisk c o v).1 = v := by
  unfold loadDisk
  by_cases hc : o.vrdInsmod = 0 ∧ v.count ≠ 0
  · rw [if_pos hc]
    unfold nbdMsgSend
    rw [send_eq_visit, h]
    rfl
  · rw [if_neg hc]

theorem countGate_readable {c : Setup} {w : Vars} (hr : Readable c w) (hw : Settled c w)
    (o : Outcomes) :
    (countGate c o w).exit = .go ∧ (countGate c o w).state.dmbdConfig = w.dmbdConfig ∧
      (countGate c o w).state.successFlag = w.successFlag ∧
      (countGate c o w).state.nbdCount = w.nbdCount := by
  by_cases hc : w.count = c.serverLen - 1
  · -- only a controller alone gets here
    have halone := others_eq_nil fun hl => hw.count hl hc
    unfold countGate
    rw [if_pos hc]
    obtain ⟨remote, hrem⟩ := withRemote_readable hr fun remote =>
      .ok { (loadDisk c o (activate c o remote 0 w).1).1 with count := 0 }
        ((activate c o remote 0 w).2 ++ (loadDisk c o (activate c o remote 0 w).1).2)
    obtain ⟨cmd, ha⟩ := (activate_keeps c o remote 0 w).1
    rw [hrem, loadDisk_alone halone, ha]
    exact ⟨rfl, rfl, rfl, rfl⟩
  · rw [countGate_ne hc]
    exact ⟨rfl, rfl, rfl, rfl⟩

theorem nbdGate_readable {c : Setup} {w : Vars} (hr : Readable c w) :
    (nbdGate c w).exit = .go ∧ (nbdGate c w).state.dmbdConfig = w.dmbdConfig ∧
      (nbdGate c w).state.successFlag =
        if w.nbdCount = c.serverLen - 1 then 1 else w.successFlag := by
  by_cases hc : w.nbdCount = c.serverLen - 1
  · rw [nbdGate_eq hc hr, if_pos hc]
    exact ⟨rfl, rfl, rfl⟩
  · rw [nbdGate_ne hc, if_neg hc]
    exact ⟨rfl, rfl, rfl⟩

theorem unsuccessGate_file (w : Vars) :
    (unsuccessGate w).exit = .go ∧ SameFile w (unsuccessGate w).state := by
  unfold unsuccessGate
  by_cases hu : w.unsuccessFlag = 1
  · rw [if_pos hu]
    exact ⟨rfl, rfl, rfl⟩
  · rw [if_neg hu]
    exact ⟨rfl, rfl, rfl⟩

/-- **With a file that can be read the gates go through**, leave it alone, and set `success_flag`
exactly when `nbd_count` is `server_len-1`. -/
theorem gates_readable {c : Setup} {w : Vars} (hr : Readable c w) (hw : Settled c w)
    (o : Outcomes) :
    (gates c o w).exit = .go ∧ (gates c o w).state.dmbdConfig = w.dmbdConfig ∧
      (gates c o w).state.successFlag =
        if w.nbdCount = c.serverLen - 1 then 1 else w.successFlag := by
  obtain ⟨hgo, hfile, hflag, hnbd⟩ := countGate_readable hr hw o
  have hr' : Readable c (countGate c o w).state := by
    unfold Readable at hr ⊢
    rwa [hfile]
  obtain ⟨hgo', hfile', hflag'⟩ := nbdGate_readable hr'
  obtain ⟨hgo'', hsame⟩ := unsuccessGate_file (nbdGate c (countGate c o w).state).state
  have hseq : ((countGate c o w).andThen (nbdGate c)).exit = .go := by
    rw [Done.andThen_go hgo]
    exact hgo'
  unfold gates
  rw [Done.andThen_go hseq, Done.andThen_go hgo]
  refine ⟨hgo'', hsame.dmbdConfig.trans (hfile'.trans hfile), ?_⟩
  rw [hsame.successFlag, hflag', hflag, hnbd]

/-! ## The file after a message -/

/-- What `dmbd_config` holds once `text` is handled: only a configuration is written to it. -/
def fileAfter (c : Setup) (o : Outcomes) (v : Vars) (text : Bytes) : Option Bytes :=
  if commandOf c text = .setConfig ∧ v.successFlag ≠ 1 ∧ o.configOpen = true then
    some (text.take o.configWritten)
  else v.dmbdConfig

theorem msgSend_file (c : Setup) (net : Net) (buf : Bytes) (v : Vars) :
    (msgSend c net buf v).1.vars.dmbdConfig = v.dmbdConfig :=
  (send_keeps (P := fun w => w.dmbdConfig = v.dmbdConfig) (Q := fun _ => True)
    (fun _ s hs => ⟨(takeVerdict_same _ s.vars).2.2.trans hs, fun _ _ => trivial⟩)
    (fun _ _ => trivial) trivial rfl).1

/-- The handlers. -/
theorem handler_file (c : Setup) (o : Outcomes) (i : Int) (text : Bytes) (v : Vars)
    (htext : cstr v.buffer = text) :
    (handler c o i text v).state.dmbdConfig = fileAfter c o v text := by
  have hother : commandOf c text ≠ .setConfig → v.dmbdConfig = fileAfter c o v text := fun h =>
    (if_neg fun hc => h hc.1).symm
  unfold handler
  cases hc : commandOf c text with
  | setConfig =>
    show (setConfig c o i v).state.dmbdConfig = _
    by_cases hs : v.successFlag = 1
    · unfold setConfig fileAfter
      rw [if_pos hs, if_neg fun h => h.2.1 hs]
    · obtain ⟨es, _, heq⟩ := setConfig_stored (c := c) (o := o) hs i
      have hread : (fileRead o v).dmbdConfig = fileAfter c o v text := by
        unfold fileRead fileAfter stored
        rw [htext]
        by_cases ho : o.configOpen = true
        · rw [if_pos ho, if_pos ⟨hc, hs, ho⟩]
        · rw [if_neg ho, if_neg fun h => ho h.2.2]
      rw [heq, Done.ok_andThen]
      refine (withRemote_keeps (P := fun w => w.dmbdConfig = fileAfter c o v text)
        (Q := fun _ => True) hread fun remote => ⟨?_, fun _ _ => trivial⟩).1
      exact (loadConfig_file c o i remote (fileRead o v)).dmbdConfig.trans hread
  | userSetConfig =>
    refine Eq.trans ?_ (hother (hc.trans_ne Command.noConfusion))
    show (userSetConfig c o v).state.dmbdConfig = v.dmbdConfig
    unfold userSetConfig
    by_cases hl : c.serverLen > 1
    · rw [if_pos hl]
      exact msgSend_file c o.msgNet controllerCmd v
    · rw [if_neg hl]
      rfl
  | mount =>
    refine Eq.trans ?_ (hother (hc.trans_ne Command.noConfusion))
    refine (mountHandler_keeps (P := fun w => w.dmbdConfig = v.dmbdConfig) (Q := fun _ => True) rfl
      (fun _ => rfl) (fun _ _ => trivial) (fun _ _ _ _ => trivial) trivial trivial
      fun w hw => ⟨?_, fun _ _ => trivial⟩).1
    rwa [mountMsgSend_vars]
  | mountSetOn =>
    refine Eq.trans ?_ (hother (hc.trans_ne Command.noConfusion))
    exact (printMountFile_keeps (P := fun w => w.dmbdConfig = v.dmbdConfig) (Q := fun _ => True)
      rfl (fun _ => rfl) trivial trivial).1
  | nbdSetOn =>
    refine Eq.trans ?_ (hother (hc.trans_ne Command.noConfusion))
    exact (withRemote_keeps (P := fun w => w.dmbdConfig = v.dmbdConfig) (Q := fun _ => True) rfl
      fun _ => ⟨rfl, fun _ _ => trivial⟩).1
  | controllerSetConfig => exact hother (hc.trans_ne Command.noConfusion)
  | unknown => exact hother (hc.trans_ne Command.noConfusion)

/-- **What the file holds after a message.** -/
theorem step_file {c : Setup} {v : Vars} {i : Int} {o : Outcomes} {r : Bytes}
    (hrun : v.running = true) (hr : r ≠ []) :
    (step c v (.read i (some r) o)).1.dmbdConfig = fileAfter c o v (cstr (r.take 4096)) := by
  have hsome : some r ≠ some [] := fun he => hr (Option.some.inj he)
  have htext : cstr (afterRead v (some r)).buffer = cstr (r.take 4096) :=
    cstr_readTerm_some 4096 v.buffer r
  have hfile := handler_file c o i (cstr (r.take 4096)) (afterRead v (some r)) htext
  rw [step_message hrun hsome]
  show (handle c o i (afterRead v (some r))).state.dmbdConfig = _
  unfold handle
  rw [htext]
  by_cases hgo : (handler c o i (cstr (r.take 4096)) (afterRead v (some r))).exit = .go
  · rw [Done.andThen_go hgo]
    exact (gates_frame c o _).dmbdConfig.trans hfile
  · rw [Done.andThen_stop hgo]
    exact hfile

/-! ## The reads of one configuration -/

/-- The read that is answered "success". -/
theorem step_success {p : Setup} {v : Vars} (hv : Between p v) {i : Int} {o : Outcomes} {r : Bytes}
    (hr : r ≠ [])
    (h : .reply i (nulTerminated "success") ∈ (step p v (.read i (some r) o)).2) :
    v.running = true ∧ v.successFlag ≠ 1 ∧ commandOf p (cstr (r.take 4096)) = .setConfig ∧
      (step p v (.read i (some r) o)).1.running = true ∧
      Readable p (step p v (.read i (some r) o)).1 ∧
      (step p v (.read i (some r) o)).1.successFlag =
        if v.nbdCount = p.serverLen - 1 then 1 else v.successFlag := by
  have hsome : some r ≠ some [] := fun he => hr (Option.some.inj he)
  have hrun := running_of_mem_step h
  have htext : cstr (afterRead v (some r)).buffer = cstr (r.take 4096) :=
    cstr_readTerm_some 4096 v.buffer r
  rw [step_message hrun hsome] at h ⊢
  have h : .reply i (nulTerminated "success") ∈
      (handle p o i (afterRead v (some r))).events := by
    rcases List.mem_cons.mp h with h | h
    · cases h
    · exact h
  obtain ⟨hgo, hacc⟩ := success_reply h
  have hset : Settled p (afterRead v (some r)) := (hv hrun).of_same ⟨rfl, rfl, rfl, rfl⟩
  obtain ⟨hgo', hfile, hflag⟩ := gates_readable hacc.readable (hset.of_same hacc.round) o
  rw [htext] at hacc
  unfold handle
  rw [Done.andThen_go hgo]
  refine ⟨hrun, hacc.notDone, hacc.command,
    decide_eq_true (hgo'.trans_ne Exit.noConfusion), ?_, ?_⟩
  · have hread := hacc.readable
    unfold Readable at hread ⊢
    rw [← htext, ← hfile] at hread
    exact hread
  · rw [← htext] at hacc
    rw [hacc.round.nbdCount, hacc.flag] at hflag
    exact hflag

section Configuration

variable {p : Setup} {v : Vars} {i : Int} {outs : Nat → Outcomes} {sent text : Bytes}

/-- Of the reads the peer has got to the first `k`. The NUL behind what was sent is read with it,
or not read, or ignored: `success_flag` is set by then, or the file cannot be opened a second
time. -/
def NulIgnored (p : Setup) (outs : Nat → Outcomes) (k : Nat) (v : Vars) (sent : Bytes) : Prop :=
  sent.length < 4096 ∨ k ≤ 1 ∨ v.nbdCount = p.serverLen - 1 ∨ (outs 1).configOpen = false

/-- What one read that is answered does to the file. -/
theorem read_stored {r : Bytes} (hr : r ≠ []) (hstr : cstr (r.take 4096) = sent)
    (h : ∃ t ∈ trace (step p) v (readInputs i outs 0 [r]),
      .reply i (nulTerminated "success") ∈ t.events) :
    (final (step p) v (readInputs i outs 0 [r])).dmbdConfig = fileAfter p (outs 0) v sent := by
  obtain ⟨t, ht, hreply⟩ := h
  have hrun := running_of_mem_trace ht hreply
  have hfile := step_file (c := p) (i := i) (o := outs 0) hrun hr
  rwa [hstr] at hfile

/-- What the second read, of the NUL alone, does to the file. -/
theorem step_nul (hjson : p.json.tokenerParse [] = none) (o : Outcomes) :
    (v.running = true → (step p v (.read i (some [0]) o)).1.dmbdConfig =
      if v.successFlag ≠ 1 ∧ o.configOpen = true then some [] else v.dmbdConfig) ∧
      (v.running ≠ true → step p v (.read i (some [0]) o) = (v, [])) := by
  have hcmd : commandOf p [] = .setConfig := by
    unfold commandOf
    rw [hjson]
    rfl
  refine ⟨fun hrun => ?_, fun hrun => if_neg hrun⟩
  rw [step_file hrun (by decide)]
  show fileAfter p o v [] = _
  unfold fileAfter
  rw [hcmd]
  simp only [List.take_nil, true_and]

/-- The answer to the NUL alone is no "success" where the peer's file can be opened: it is emptied,
and then not read. So it is the first read that was answered. -/
theorem first_answered (hv : Between p v) (hjson : p.json.tokenerParse [] = none)
    (h : ∃ t ∈ trace (step p) v (readInputs i outs 0 [sent, [0]]),
      .reply i (nulTerminated "success") ∈ t.events) (hopen : (outs 1).configOpen = true) :
    .reply i (nulTerminated "success") ∈ (step p v (.read i (some sent) (outs 0))).2 := by
  have hv' : Between p (step p v (.read i (some sent) (outs 0))).1 := final_between hv [_]
  obtain ⟨t, ht, hreply⟩ := h
  rcases List.mem_cons.mp ht with rfl | ht
  · exact hreply
  · rw [List.mem_singleton.mp ht] at hreply
    obtain ⟨hrun', hs, -, -, hread, -⟩ := step_success hv' (by decide) hreply
    have hempty := (step_nul (i := i) hjson (outs 1)).1 hrun'
    rw [if_pos ⟨hs, hopen⟩] at hempty
    unfold Readable readDMBDRemote JsonC.fromFile at hread
    rw [hempty, Option.bind_some, hjson] at hread
    cases hread

/-- **A text that fills the buffer leaves its NUL for a second read**: once that is read, the file
keeps what the first read made of it, or is emptied. -/
theorem nul_stored (hsent : NulFree sent) (hlen : sent.length = 4096) (hv : Between p v)
    (hjson : p.json.tokenerParse [] = none)
    (h : ∃ t ∈ trace (step p) v (readInputs i outs 0 [sent, [0]]),
      .reply i (nulTerminated "success") ∈ t.events) :
    (final (step p) v (readInputs i outs 0 [sent, [0]])).dmbdConfig =
      if v.nbdCount = p.serverLen - 1 ∨ (outs 1).configOpen = false
      then fileAfter p (outs 0) v sent else some [] := by
  have hne : sent ≠ [] := List.ne_nil_of_length_pos (by omega)
  have hstr : cstr (sent.take 4096) = sent := by
    rw [List.take_of_length_le hlen.le]
    exact cstr_eq_self hsent
  have hrun : v.running = true := by
    obtain ⟨t, ht, hreply⟩ := h
    exact running_of_mem_trace ht hreply
  have hfirst := first_answered hv hjson h
  have hfile := step_file (c := p) (i := i) (o := outs 0) hrun hne
  rw [hstr] at hfile
  have hlast := step_nul (p := p) (v := (step p v (.read i (some sent) (outs 0))).1) (i := i) hjson
    (outs 1)
  show (step p (step p v _).1 _).1.dmbdConfig = _
  rw [← hfile]
  by_cases hopen : (outs 1).configOpen = true
  · obtain ⟨-, hs, -, hrun', -, hset⟩ := step_success hv hne (hfirst hopen)
    have hclosed : ¬ (outs 1).configOpen = false := by
      rw [hopen]
      exact Bool.noConfusion
    refine (hlast.1 hrun').trans ?_
    by_cases hnbd : v.nbdCount = p.serverLen - 1
    · rw [if_pos hnbd] at hset
      rw [if_neg fun hc => hc.1 hset, if_pos (Or.inl hnbd)]
    · rw [if_neg hnbd] at hset
      rw [if_pos ⟨hset.trans_ne hs, hopen⟩, if_neg (not_or_intro hnbd hclosed)]
  · rw [if_pos (Or.inr (Bool.eq_false_of_not_eq_true hopen))]
    by_cases hrun' : (step p v (.read i (some sent) (outs 0))).1.running = true
    · exact (hlast.1 hrun').trans (if_neg fun hc => hopen hc.2)
    · rw [hlast.2 hrun']

/-- **What an answered text has made of the file**, when the peer has got to `k` of its reads. -/
theorem text_stored (hsent : NulFree sent) (hle : sent.length ≤ 4096) (hv : Between p v)
    (hjson : p.json.tokenerParse [] = none) {k : Nat}
    (h : ∃ t ∈ trace (step p) v (readInputs i outs 0 ((readsOf 4096 (sent ++ [0])).take k)),
      .reply i (nulTerminated "success") ∈ t.events) :
    (NulIgnored p outs k v sent →
      (final (step p) v (readInputs i outs 0 ((readsOf 4096 (sent ++ [0])).take k))).dmbdConfig =
        fileAfter p (outs 0) v sent) ∧
    (¬ NulIgnored p outs k v sent →
      (final (step p) v (readInputs i outs 0 ((readsOf 4096 (sent ++ [0])).take k))).dmbdConfig =
        some []) := by
  cases k with
  | zero =>
    obtain ⟨t, ht, -⟩ := h
    exact absurd ht List.not_mem_nil
  | succ k =>
    rw [config_reads hle] at h ⊢
    by_cases hlen : sent.length < 4096
    · rw [if_pos hlen, List.take_succ_cons, List.take_nil] at h ⊢
      have hstr : cstr ((sent ++ [0]).take 4096) = sent := by
        rw [List.take_of_length_le (by rw [List.length_append]; exact hlen)]
        exact cstr_append_zero hsent
      exact ⟨fun _ => read_stored (by simp) hstr h, fun hleft => absurd (Or.inl hlen) hleft⟩
    · have hfull : sent.length = 4096 := by omega
      rw [if_neg hlen] at h ⊢
      cases k with
      | zero =>
        have hstr : cstr (sent.take 4096) = sent := by
          rw [List.take_of_length_le hle]
          exact cstr_eq_self hsent
        exact ⟨fun _ => read_stored (List.ne_nil_of_length_pos (by omega)) hstr h,
          fun hleft => absurd (Or.inr (Or.inl le_rfl)) hleft⟩
      | succ k =>
        have hnul : NulIgnored p outs (k + 2) v sent ↔
            v.nbdCount = p.serverLen - 1 ∨ (outs 1).configOpen = false := by
          unfold NulIgnored
          rw [or_iff_right hlen, or_iff_right (by omega)]
        rw [List.take_succ_cons, List.take_succ_cons, List.take_nil] at h ⊢
        have hstored := nul_stored hsent hfull hv hjson h
        exact ⟨fun hignored => hstored.trans (if_pos (hnul.mp hignored)),
          fun hleft => hstored.trans (if_neg (mt hnul.mpr hleft))⟩

end Configuration

/-! ## Replication -/

/-- **When the peer ends with the coordinator's text**, told from the calls and the state before:
what is sent is stored as it is, and nothing is stored after it. -/
def Replicates (p : Setup) (net : Net) (n : Nat) (outs : Nat → Outcomes) (k : Nat) (v : Vars)
    (text : Bytes) : Prop :=
  NulIgnored p outs k v (sentText net n text) ∧
      fileAfter p (outs 0) v (sentText net n text) = some text ∨
    ¬ NulIgnored p outs k v (sentText net n text) ∧ text = []

/-- Where the coordinator's open and the peer's succeed, the peer stores all it reads, and it takes
the message for a configuration, it is only the length that counts once all is read. -/
theorem replicates_whole {p : Setup} {net : Net} {n : Nat} {outs : Nat → Outcomes} {k : Nat}
    {v : Vars} {text : Bytes} (hall : 2 ≤ k) (hindex : net.indexOpen n = true)
    (hopen : ∀ k, (outs k).configOpen = true) (hwritten : 4096 ≤ (outs 0).configWritten)
    (hflag : v.successFlag ≠ 1) (hcmd : commandOf p (text.take 4096) = .setConfig) :
    Replicates p net n outs k v text ↔
      text.length < 4096 ∨ text.length = 4096 ∧ v.nbdCount = p.serverLen - 1 := by
  have hsent : sentText net n text = text.take 4096 := if_pos hindex
  have hlen : (text.take 4096).length = min 4096 text.length := List.length_take
  have hfile : fileAfter p (outs 0) v (text.take 4096) = some (text.take 4096) := by
    unfold fileAfter
    rw [if_pos ⟨hcmd, hflag, hopen 0⟩, List.take_of_length_le (by omega)]
  unfold Replicates NulIgnored
  rw [hsent, hfile, Option.some.injEq, List.take_eq_self_iff, hopen 1]
  constructor
  · rintro (⟨hignored, hle⟩ | ⟨hleft, rfl⟩)
    · rcases hignored with h | h | h | h
      · exact Or.inl (by omega)
      · omega
      · rcases hle.lt_or_eq with hlt | heq
        · exact Or.inl hlt
        · exact Or.inr ⟨heq, h⟩
      · cases h
    · exact Or.inl (by decide)
  · rintro (h | ⟨h, hnbd⟩)
    · exact Or.inl ⟨Or.inl (by omega), h.le⟩
    · exact Or.inl ⟨Or.inr (Or.inr (Or.inl hnbd)), h.le⟩

/-- **When replication is exact.** A peer in any reachable state answered "success" to the
configuration `msg_send` sent it; from then on, whenever it has got to the first `k` of its reads,
its file is the coordinator's exactly where `Replicates` says so, whatever opens and writes on the
way fail. -/
theorem replication_exact_iff (c p : Setup) (net : Net) (buf : Bytes) (n : Nat) (w v₀ : Vars)
    (is : List Input) (text msg : Bytes) (i : Int) (outs : Nat → Outcomes) (k : Nat)
    (hfile : w.dmbdConfig = some text) (htext : NulFree text)
    (hindex : (net.index n).length ≤ 4096)
    (hsent : .config n msg ∈ (msgSend c net buf w).2) (hstart : v₀.Start p)
    (hjson : p.json.tokenerParse [] = none)
    (hans : ∃ t ∈ trace (step p) (final (step p) v₀ is)
        (readInputs i outs 0 ((readsOf 4096 msg).take k)),
      .reply i (nulTerminated "success") ∈ t.events) :
    (final (step p) (final (step p) v₀ is)
        (readInputs i outs 0 ((readsOf 4096 msg).take k))).dmbdConfig = some text ↔
      Replicates p net n outs k (final (step p) v₀ is) text := by
  have hv : Between p (final (step p) v₀ is) := final_between hstart.between is
  generalize final (step p) v₀ is = v at hv hans ⊢
  have hnul : NulFree (sentText net n text) := sentText_nulFree htext
  rw [config_sent_text hsent hfile htext] at hans ⊢
  obtain ⟨hkeep, hempty⟩ := text_stored hnul (sentText_length hindex text) hv hjson hans
  unfold Replicates
  by_cases hignored : NulIgnored p outs k v (sentText net n text)
  · rw [hkeep hignored, and_iff_right hignored, or_iff_left fun h => h.1 hignored]
  · rw [hempty hignored, or_iff_right fun h => hignored h.1, and_iff_right hignored,
      Option.some.injEq, eq_comm]

/-! ## A text that fits and one that does not -/

/-- The peer once the coordinator's connection was accepted. -/
def acceptedPeer : Vars := final (step peer) (startVars none) [.accept 4]

theorem msgSend_config (text : Bytes) :
    .config 1 (cstr (configIndex msgOk 1 (some text)) ++ [0]) ∈
      (msgSend (twoServers sampleJson) msgOk controllerCmd (startVars (some text))).2 :=
  List.mem_of_getElem? (i := 5) rfl

/-- The same document, with blanks after it. -/
def longText : Bytes := sampleConfig ++ List.replicate 5000 32

theorem longText_length : longText.length = 5116 := by
  rw [longText, List.length_append, List.length_replicate]
  decide +kernel

theorem longText_nulFree : NulFree longText := by
  intro b hb
  rcases List.mem_append.mp hb with hb | hb
  · have h : NulFree sampleConfig := by decide +kernel
    exact h b hb
  · rw [List.eq_of_mem_replicate hb]
    decide

/-- What is sent of the long text. -/
def longMsg : Bytes := longText.take 4096 ++ [0]

theorem readsOf_longMsg : readsOf 4096 longMsg = [longText.take 4096, [0]] := by
  have hlen : (longText.take 4096).length = 4096 := by
    rw [List.length_take, longText_length]
    decide
  rw [longMsg, config_reads hlen.le, if_neg (by omega)]

/-- The peer answers "success" to the long text, and ends with an empty file. -/
theorem long_config_not_replicated :
    .config 1 longMsg ∈
        (msgSend (twoServers sampleJson) msgOk controllerCmd (startVars (some longText))).2 ∧
      (∃ t ∈ trace (step peer) acceptedPeer
          (readInputs 4 (fun _ => allOk) 0 (readsOf 4096 longMsg)),
        .reply 4 (nulTerminated "success") ∈ t.events) ∧
      (final (step peer) acceptedPeer
        (readInputs 4 (fun _ => allOk) 0 (readsOf 4096 longMsg))).dmbdConfig ≠ some longText := by
  have hmsg := msgSend_config longText
  refine ⟨?_, ?_, ?_⟩
  · rwa [config_sent_text hmsg rfl longText_nulFree] at hmsg
  · rw [readsOf_longMsg]
    exact ⟨_, List.mem_cons_self, by decide +kernel⟩
  · have hfinal : (final (step peer) acceptedPeer (readInputs 4 (fun _ => allOk) 0
        [longText.take 4096, [0]])).dmbdConfig = some [] := by decide +kernel
    rw [readsOf_longMsg, hfinal]
    intro h
    have hlen := congrArg List.length (Option.some.inj h)
    rw [longText_length] at hlen
    exact absurd hlen (by decide)

/-- A short text arrives as it is. -/
theorem replication_exact_short :
    (final (step peer) acceptedPeer
      (readInputs 4 (fun _ => allOk) 0 ((readsOf 4096 (sampleConfig ++ [0])).take 2))).dmbdConfig =
        some sampleConfig := by
  have hnul : NulFree sampleConfig := by decide +kernel
  have htake : sampleConfig.take 4096 = sampleConfig :=
    List.take_of_length_le (by decide +kernel)
  have hsent : .config 1 (sampleConfig ++ [0]) ∈ (msgSend (twoServers sampleJson) msgOk
      controllerCmd (startVars (some sampleConfig))).2 := by
    have hmsg := msgSend_config sampleConfig
    rw [config_sent_text hmsg rfl hnul] at hmsg
    rwa [show sentText msgOk 1 sampleConfig = sampleConfig from htake] at hmsg
  refine (replication_exact_iff (twoServers sampleJson) peer msgOk controllerCmd 1
    (startVars (some sampleConfig)) (startVars none) [.accept 4] sampleConfig
    (sampleConfig ++ [0]) 4 (fun _ => allOk) 2 rfl hnul (by decide) hsent (startVars_start _ _ _ _)
    (by decide +kernel) ⟨_, List.mem_cons_self, by decide +kernel⟩).mpr
      ((replicates_whole le_rfl rfl (fun _ => rfl) (Nat.le_refl _) (by decide +kernel) ?_).mpr
        (Or.inl (by decide +kernel)))
  rw [htake]
  decide +kernel

end JcmController.Controller
