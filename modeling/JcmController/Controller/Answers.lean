import JcmController.Controller.Success

/-!
# The answer to a configuration

The handler of a configuration answers "success" at its end; the branch that answers "unsuccess"
stands after a `continue` for the same condition. The last gates can write on the connection once
more, if it is `client_sock`.

What a "success" is about is decided by the file that is read back, not by the message: its last
entry for the own ip gives the command of `insmod` and the contents of `nbd_config`. With no such
entry the command is that of an earlier message.

* `setConfig_events`: the answer is the last thing the handler does.
* `setConfig_writes`, `gates_writes`, `handle_writes`: what is written on the connection.
* `startNbdServers_ran`, `setConfig_ran`: the commands and the file of a "success".
* **`success_about_iff`**: over every run, when a "success" is about an entry of its message.
-/

namespace JcmController.Controller

open JcmController.Lib

/-! ## What is written on a connection -/

/-- The texts written on the connection `i`: answers to it, and verdicts if `client_sock` is
`i`. -/
def writesOn (i : Int) (es : List Event) : List Bytes :=
  es.filterMap fun
    | .reply j msg => if j = i then some msg else none
    | .verdict fd msg => if fd = i then some msg else none
    | _ => none

theorem writesOn_append (i : Int) (es es' : List Event) :
    writesOn i (es ++ es') = writesOn i es ++ writesOn i es' :=
  List.filterMap_append

theorem writesOn_silent {i : Int} {es : List Event} (h : ∀ e ∈ es, e.Silent) :
    writesOn i es = [] := by
  refine List.filterMap_eq_nil_iff.mpr fun e he => ?_
  cases e with
  | reply j msg => exact absurd (h _ he) id
  | verdict fd msg => exact absurd (h _ he) id
  | _ => rfl

/-- Events without answers, whose verdicts all go to one connection. -/
theorem writesOn_verdicts {i fd : Int} :
    ∀ {es : List Event}, (∀ j msg, .reply j msg ∉ es) →
      (∀ fd' msg, .verdict fd' msg ∈ es → fd' = fd) →
      writesOn i es = if fd = i then verdicts es else []
  | [], _, _ => (ite_self _).symm
  | e :: es, hreply, hfd => by
    have ih : writesOn i es = if fd = i then verdicts es else [] :=
      writesOn_verdicts (fun j msg h => hreply j msg (List.mem_cons_of_mem e h))
        fun fd' msg h => hfd fd' msg (List.mem_cons_of_mem e h)
    rw [← List.singleton_append, writesOn_append, verdicts_append, ih]
    cases e with
    | reply j msg => exact absurd List.mem_cons_self (hreply j msg)
    | verdict fd' msg =>
      have heq := hfd fd' msg List.mem_cons_self
      by_cases hi : fd = i
      · simp [writesOn, verdicts, heq, hi]
      · simp [writesOn, heq, hi]
    | _ => simp [writesOn, verdicts]

theorem Event.Plain.silent {e : Event} (h : e.Plain) (hreply : ∀ j msg, e ≠ .reply j msg) :
    e.Silent := by
  cases e with
  | reply j msg => exact absurd rfl (hreply j msg)
  | _ => exact h

theorem startNbdServers_silent (c : Setup) (o : Outcomes) (rs : List DmbdConfigRemote) (n : Nat)
    (v : Vars) : ∀ e ∈ (startNbdServers c o rs n v).events, e.Silent := by
  intro e he
  refine ((startNbdServers_still c o rs n v).2 e he).silent ?_
  rintro j msg rfl
  exact (startNbdServers_file c o rs n v).2 j msg he

/-- The text of the answer. -/
def successText : Bytes := ascii "success" ++ [0]

/-- The state in which it looks for own entries a second time. -/
def commanded (c : Setup) (remote : List DmbdConfigRemote) (v : Vars) : Vars :=
  { v with bestioCmd := ownBestioCmd c remote v.bestioCmd }

/-- A successful `insmod`, and the loop that follows it. -/
def loaded (c : Setup) (o : Outcomes) (remote : List DmbdConfigRemote) (v : Vars) :
    Done Vars Event :=
  (Done.ok (commanded c remote v)
    [.launch .configInsmod (ownBestioCmd c remote v.bestioCmd) o.configInsmod]).andThen
      (startNbdServers c o remote 0)

theorem loaded_events (c : Setup) (o : Outcomes) (remote : List DmbdConfigRemote) (v : Vars) :
    (loaded c o remote v).events =
      [.launch .configInsmod (ownBestioCmd c remote v.bestioCmd) o.configInsmod] ++
        (startNbdServers c o remote 0 (commanded c remote v)).events := rfl

theorem loaded_silent (c : Setup) (o : Outcomes) (remote : List DmbdConfigRemote) (v : Vars) :
    ∀ e ∈ (loaded c o remote v).events, e.Silent :=
  List.forall_mem_cons.mpr ⟨Or.inl rfl, startNbdServers_silent c o remote 0 _⟩

/-- The handler then answers, if `nbd_config` was written at each own entry. -/
theorem loadConfig_zero {c : Setup} {o : Outcomes} (hi : o.configInsmod = 0) (i : Int)
    (remote : List DmbdConfigRemote) (v : Vars) :
    loadConfig c o i remote v =
      (loaded c o remote v).andThen fun w => .ok w [.reply i successText] := by
  unfold loadConfig
  simp only [if_neg (not_not_intro hi)]
  rfl

theorem loadConfig_nonzero {c : Setup} {o : Outcomes} (hi : o.configInsmod ≠ 0) (i : Int)
    (remote : List DmbdConfigRemote) (v : Vars) :
    loadConfig c o i remote v =
      ⟨commanded c remote v,
        [.launch .configInsmod (ownBestioCmd c remote v.bestioCmd) o.configInsmod], .cont⟩ := by
  unfold loadConfig
  simp only [if_pos hi]
  rfl

theorem loadConfig_events (c : Setup) (o : Outcomes) (i : Int) (remote : List DmbdConfigRemote)
    (v : Vars) : ∃ es, (∀ e ∈ es, e.Silent) ∧ (loadConfig c o i remote v).events =
      es ++ if (loadConfig c o i remote v).exit = .go then [.reply i successText] else [] := by
  by_cases hi : o.configInsmod = 0
  · refine ⟨(loaded c o remote v).events, loaded_silent c o remote v, ?_⟩
    rw [loadConfig_zero hi]
    by_cases hgo : (loaded c o remote v).exit = .go
    · rw [Done.andThen_go hgo]
      rfl
    · rw [Done.andThen_stop hgo, if_neg hgo, List.append_nil]
  · rw [loadConfig_nonzero hi]
    refine ⟨_, List.forall_mem_singleton.mpr ?_, (List.append_nil _).symm⟩
    exact Or.inl rfl

/-- **The handler answers where it comes to its end**, as the last thing it does. -/
theorem setConfig_events (c : Setup) (o : Outcomes) (i : Int) (v : Vars) :
    ∃ es, (∀ e ∈ es, e.Silent) ∧ (setConfig c o i v).events =
      es ++ if (setConfig c o i v).exit = .go then [.reply i successText] else [] := by
  by_cases hs : v.successFlag = 1
  · unfold setConfig
    rw [if_pos hs]
    exact ⟨[], nofun, rfl⟩
  · obtain ⟨es, hes, heq⟩ := setConfig_stored (c := c) (o := o) hs i
    have hsilent : ∀ e ∈ es, e.Silent := fun e he => hes e he ▸ trivial
    rw [heq, Done.ok_andThen]
    unfold withRemote
    cases readDMBDRemote c.json (fileRead o v).dmbdConfig with
    | none => exact ⟨es, hsilent, rfl⟩
    | some remote =>
      obtain ⟨es', hes', heq'⟩ := loadConfig_events c o i remote (fileRead o v)
      refine ⟨es ++ es', fun e he => (List.mem_append.mp he).elim (hsilent e) (hes' e), ?_⟩
      rw [List.append_assoc, ← heq']

/-- What it writes on the connection. -/
theorem setConfig_writes (c : Setup) (o : Outcomes) (i : Int) (v : Vars) :
    writesOn i (setConfig c o i v).events =
      if (setConfig c o i v).exit = .go then [successText] else [] := by
  obtain ⟨es, hes, heq⟩ := setConfig_events c o i v
  rw [heq, writesOn_append, writesOn_silent hes, List.nil_append]
  by_cases hgo : (setConfig c o i v).exit = .go
  · simp [hgo, writesOn]
  · rw [if_neg hgo, if_neg hgo]
    rfl

/-- The gates write their verdicts. -/
theorem gates_writes (c : Setup) (o : Outcomes) (i : Int) (v : Vars) :
    writesOn i (gates c o v).events =
      if v.clientSock = i then verdicts (gates c o v).events else [] :=
  writesOn_verdicts (fun _ _ => gates_not_reply) fun _ _ => gates_verdict

theorem handle_setConfig {c : Setup} {v : Vars} (h : commandOf c (cstr v.buffer) = .setConfig)
    (o : Outcomes) (i : Int) : handle c o i v = (setConfig c o i v).andThen (gates c o) := by
  unfold handle handler
  rw [h]

/-- What is written after a configuration that is read back. -/
theorem handle_writes {c : Setup} {o : Outcomes} {i : Int} {v : Vars}
    (h : commandOf c (cstr v.buffer) = .setConfig) :
    writesOn i (handle c o i v).events =
      if (setConfig c o i v).exit = .go then
        successText :: if v.clientSock = i then gateVerdicts c o v else []
      else [] := by
  rw [handle_setConfig h]
  by_cases hgo : (setConfig c o i v).exit = .go
  · have hread := (setConfig_go c o i v).2 hgo
    have hround := (setConfig_still c o i v).1
    obtain ⟨_, _, hverdicts⟩ := hround.gates (c := c) o
    rw [Done.andThen_go hgo, writesOn_append, setConfig_writes, gates_writes, hround.clientSock,
      gates_verdicts, if_pos fun _ => hread, hverdicts, if_pos hgo, if_pos hgo]
    rfl
  · rw [Done.andThen_stop hgo, setConfig_writes, if_neg hgo, if_neg hgo]

/-! ## The commands of a "success" -/

/-- The calls of `system` at one place: the commands and what they returned. -/
def launches (site : Site) (es : List Event) : List (Bytes × Int) :=
  es.filterMap fun
    | .launch s cmd ret => if s = site then some (cmd, ret) else none
    | _ => none

theorem launches_append (site : Site) (es es' : List Event) :
    launches site (es ++ es') = launches site es ++ launches site es' :=
  List.filterMap_append

theorem launches_eq_nil {site : Site} {es : List Event} (h : ∀ cmd ret, .launch site cmd ret ∉ es) :
    launches site es = [] := by
  refine List.filterMap_eq_nil_iff.mpr fun e he => ?_
  cases e with
  | launch s cmd ret =>
    have hne : s ≠ site := by
      rintro rfl
      exact h cmd ret he
    exact if_neg hne
  | _ => rfl

/-- The last entry for the own ip, with its number, the first entry having number `n`. -/
def lastOwn (c : Setup) :
    List DmbdConfigRemote → Nat → Option (Nat × DmbdConfigRemote × List DmbdConfigRemote)
  | [], _ => none
  | r :: rs, n =>
    (lastOwn c rs (n + 1)).or (if ipOf (r :: rs) = c.myNode.ip then some (n, r, rs) else none)

theorem lastOwn_cons (c : Setup) (r : DmbdConfigRemote) (rs : List DmbdConfigRemote) (n : Nat) :
    lastOwn c (r :: rs) n = (lastOwn c rs (n + 1)).or
      (if ipOf (r :: rs) = c.myNode.ip then some (n, r, rs) else none) := rfl

theorem lastOwn_mem {c : Setup} {k : Nat} {r : DmbdConfigRemote} {rs : List DmbdConfigRemote} :
    ∀ {remote : List DmbdConfigRemote} {n : Nat}, lastOwn c remote n = some (k, r, rs) →
      r :: rs ∈ remote.tails ∧ ipOf (r :: rs) = c.myNode.ip
  | r₀ :: rs₀, n, h => by
    rw [lastOwn_cons] at h
    rw [List.tails_cons]
    rcases Option.or_eq_some_iff.mp h with h | ⟨_, h⟩
    · exact ⟨List.mem_cons_of_mem _ (lastOwn_mem h).1, (lastOwn_mem h).2⟩
    · by_cases hip : ipOf (r₀ :: rs₀) = c.myNode.ip
      · rw [if_pos hip] at h
        cases h
        exact ⟨List.mem_cons_self, hip⟩
      · rw [if_neg hip] at h
        cases h

/-- **The last own entry decides the command.** -/
theorem ownBestioCmd_eq {c : Setup} :
    ∀ (remote : List DmbdConfigRemote) (n : Nat) (cmd : Bytes),
      ownBestioCmd c remote cmd =
        ((lastOwn c remote n).map fun own => bestioCmd c own.2.1).getD cmd
  | [], _, _ => rfl
  | r :: rs, n, cmd => by
    unfold ownBestioCmd
    rw [ownBestioCmd_eq rs (n + 1), lastOwn_cons]
    cases lastOwn c rs (n + 1) with
    | some own => rfl
    | none =>
      by_cases hip : ipOf (r :: rs) = c.myNode.ip
      · simp [hip]
      · simp [hip]

/-- The loop that starts `nbd-server` runs no other command. -/
theorem startNbdServers_launch {c : Setup} {o : Outcomes} {site : Site} {cmd : Bytes} {ret : Int}
    {rs : List DmbdConfigRemote} {n : Nat} {v : Vars}
    (h : .launch site cmd ret ∈ (startNbdServers c o rs n v).events) : site = .nbdServer := by
  refine (startNbdServers_keeps (P := fun _ => True)
    (Q := fun e => ∀ site cmd ret, e = .launch site cmd ret → site = .nbdServer)
    (fun _ _ h => h) ?_ ?_ ?_ rs n v trivial).2 _ h site cmd ret rfl
  · rintro _ _ _ ⟨⟩
  · rintro _ _ _ ⟨⟩
  · rintro _ _ _ _ ⟨⟩
    rfl

/-- The last own entry is one of those that are printed. -/
theorem lastOwn_prints {c : Setup} {o : Outcomes} {k : Nat} {r : DmbdConfigRemote}
    {rs : List DmbdConfigRemote} :
    ∀ {remote : List DmbdConfigRemote} {n : Nat}, PrintsOwn c o remote n →
      lastOwn c remote n = some (k, r, rs) →
      ∃ text, fprintf c.junk (nbdConfigMsg (r :: rs)) = some text
  | r₀ :: rs₀, n, hp, h => by
    obtain ⟨hp₀, hp⟩ := printsOwn_cons.mp hp
    rw [lastOwn_cons] at h
    rcases Option.or_eq_some_iff.mp h with h | ⟨_, h⟩
    · exact lastOwn_prints hp h
    · obtain ⟨hip, heq⟩ := Option.ite_none_right_eq_some.mp h
      cases heq
      exact Option.isSome_iff_exists.mp (hp₀ hip).2

/-- **The last own entry is what `nbd_config` says at the end**, and what the last `nbd-server` was
started on. -/
theorem startNbdServers_ran {c : Setup} {o : Outcomes} :
    ∀ (rs : List DmbdConfigRemote) (n : Nat) (v : Vars),
      (startNbdServers c o rs n v).exit = .go →
        (startNbdServers c o rs n v).state.nbdConfig =
          ((lastOwn c rs n).map fun own =>
            fprintf c.junk (nbdConfigMsg (own.2.1 :: own.2.2))).getD v.nbdConfig ∧
        (launches .nbdServer (startNbdServers c o rs n v).events).getLast? =
          (lastOwn c rs n).map fun own => (nbdServerCmd c, o.nbdServer own.1)
  | [], _, _, _ => ⟨rfl, rfl⟩
  | r :: rs, n, v, hgo => by
    unfold startNbdServers at hgo ⊢
    by_cases hip : ipOf (r :: rs) = c.myNode.ip
    · rw [if_pos hip] at hgo ⊢
      rcases printNbdConfig_cases c o (r :: rs) n v with ⟨-, text, hp, heq⟩ | ⟨-, hcrash⟩
      · rw [heq, Done.ok_andThen, Done.ok_andThen] at hgo ⊢
        obtain ⟨hfile, hlast⟩ := startNbdServers_ran rs (n + 1) _ hgo
        rw [launches_append, launches_append, List.getLast?_append, List.getLast?_append, hfile,
          hlast, lastOwn_cons, if_pos hip]
        cases lastOwn c rs (n + 1) with
        | some own => exact ⟨rfl, rfl⟩
        | none => exact ⟨hp.symm, rfl⟩
      · cases hcrash.symm.trans (Done.andThen_exit_go hgo)
    · rw [if_neg hip] at hgo ⊢
      obtain ⟨hfile, hlast⟩ := startNbdServers_ran rs (n + 1) v hgo
      rw [hfile, hlast, lastOwn_cons, if_neg hip, Option.or_none]
      exact ⟨rfl, rfl⟩

/-- What the handler has done when it comes to its end: one `insmod` that returned 0, and what the
last own entry of `read` says. -/
structure Ran (c : Setup) (o : Outcomes) (read : List DmbdConfigRemote) (v : Vars)
    (r : Done Vars Event) : Prop where
  insmod : launches .configInsmod r.events = [(ownBestioCmd c read v.bestioCmd, 0)]
  printed : PrintsOwn c o read 0
  nbdConfig : r.state.nbdConfig = ((lastOwn c read 0).map fun own =>
    fprintf c.junk (nbdConfigMsg (own.2.1 :: own.2.2))).getD v.nbdConfig
  nbdServer : (launches .nbdServer r.events).getLast? =
    (lastOwn c read 0).map fun own => (nbdServerCmd c, o.nbdServer own.1)

theorem loadConfig_ran {c : Setup} {o : Outcomes} {i : Int} {remote : List DmbdConfigRemote}
    {v : Vars} (hgo : (loadConfig c o i remote v).exit = .go) :
    Ran c o remote v (loadConfig c o i remote v) := by
  obtain ⟨hi, hprints⟩ := loadConfig_go.mp hgo
  rw [loadConfig_zero hi] at hgo ⊢
  have hgo' := Done.andThen_exit_go hgo
  obtain ⟨hfile, hlast⟩ := startNbdServers_ran remote 0 (commanded c remote v) hgo'
  have hnone : launches .configInsmod
      (startNbdServers c o remote 0 (commanded c remote v)).events = [] :=
    launches_eq_nil fun cmd ret h => absurd (startNbdServers_launch h) Site.noConfusion
  rw [Done.andThen_go hgo']
  refine ⟨?_, hprints, hfile, ?_⟩
  · rw [launches_append, loaded_events, launches_append, hnone, hi]
    rfl
  · rw [launches_append, loaded_events, launches_append, ← hlast]
    show ([] ++ launches .nbdServer _ ++ []).getLast? = _
    rw [List.nil_append, List.append_nil]

theorem setConfig_ran {c : Setup} {o : Outcomes} {i : Int} {v : Vars}
    (hgo : (setConfig c o i v).exit = .go) :
    ∃ read, readDMBDRemote c.json (fileRead o v).dmbdConfig = some read ∧
      Ran c o read v (setConfig c o i v) := by
  obtain ⟨hs, _, read, hread, _⟩ := (setConfig_go c o i v).1.mp hgo
  obtain ⟨es, hes, heq⟩ := setConfig_stored (c := c) (o := o) hs i
  have hnone : ∀ site, launches site es = [] := fun site =>
    launches_eq_nil fun cmd ret h => absurd (hes _ h) Event.noConfusion
  have hsame : (fileRead o v).bestioCmd = v.bestioCmd ∧
      (fileRead o v).nbdConfig = v.nbdConfig := by
    unfold fileRead stored
    by_cases ho : o.configOpen = true
    · rw [if_pos ho]
      exact ⟨rfl, rfl⟩
    · rw [if_neg ho]
      exact ⟨rfl, rfl⟩
  refine ⟨read, hread, ?_⟩
  rw [heq, Done.ok_andThen] at hgo ⊢
  unfold withRemote at hgo ⊢
  rw [hread] at hgo ⊢
  have hran := loadConfig_ran hgo
  refine ⟨?_, hran.printed, hran.nbdConfig.trans (by rw [hsame.2]), ?_⟩
  · rw [launches_append, hnone, List.nil_append, hran.insmod, hsame.1]
  · rw [launches_append, hnone, List.nil_append, hran.nbdServer]

/-! ## The gates -/

/-- `nbd_config` stays as it is, and no command of the configuration handler is run. -/
def Unserved (v : Vars) : Done Vars Event → Prop :=
  Done.Keeps (fun w => w.nbdConfig = v.nbdConfig) fun e =>
    ∀ cmd ret, e ≠ .launch .configInsmod cmd ret ∧ e ≠ .launch .nbdServer cmd ret

theorem activate_sites (c : Setup) (o : Outcomes) :
    ∀ (rs : List DmbdConfigRemote) (n : Nat) (v : Vars), ∀ e ∈ (activate c o rs n v).2,
      ∀ cmd ret, e ≠ .launch .configInsmod cmd ret ∧ e ≠ .launch .nbdServer cmd ret
  | [], _, _ => fun _ he => absurd he List.not_mem_nil
  | r :: rs, n, v => by
    obtain ⟨w, hw⟩ := activate_cons c o r rs n v
    rw [hw]
    refine List.forall_mem_cons.mpr ⟨fun cmd ret => ?_, activate_sites c o rs (n + 1) w⟩
    unfold activationEvent
    by_cases hip : ipOf (r :: rs) = c.myNode.ip
    · simp [hip]
    · simp [hip]

/-- **The gates are not about a configuration.** -/
theorem gates_unserved (c : Setup) (o : Outcomes) (v : Vars) : Unserved v (gates c o v) := by
  refine ⟨(gates_frame c o v).nbdConfig, fun e he => ?_⟩
  rcases mem_gates he with ⟨remote, he⟩ | rfl | ⟨w, he⟩ | ⟨fd, text, rfl⟩
  · exact activate_sites c o remote 0 v e he
  · simp
  · have hsender := (nbdMsgSend_keeps c o.nbdNet nbdClientMsg w).2 e he
    refine fun cmd ret => ⟨?_, ?_⟩
    · rintro rfl
      exact hsender
    · rintro rfl
      exact hsender
  · simp

/-! ## What a "success" is about -/

/-- One entry of the message, for the own ip, gave the command of the `insmod`, which returned 0,
and the contents of `nbd_config`, on which `nbd-server` was then started. Each own entry of a file
writes `nbd_config` and starts the server, so that what counts are the last contents and the last
start. -/
def AboutMessage (c : Setup) (text : Bytes) (w : Vars) (es : List Event) : Prop :=
  ∃ remote r rs, readDMBDRemote c.json (some text) = some remote ∧ r :: rs ∈ remote.tails ∧
    ipOf (r :: rs) = c.myNode.ip ∧
    launches .configInsmod es = [(bestioCmd c r, 0)] ∧
    (∃ file, fprintf c.junk (nbdConfigMsg (r :: rs)) = some file ∧ w.nbdConfig = some file) ∧
    (launches .nbdServer es).getLast? = some (nbdServerCmd c, 0)

/-- The file that is read back has an own entry; the last one is, as far as its two texts go, an
own entry of the message; and the `nbd-server` started on it runs. -/
def ReadsOwnEntry (c : Setup) (o : Outcomes) (v : Vars) : Prop :=
  ∃ read n r rs, readDMBDRemote c.json (fileRead o v).dmbdConfig = some read ∧
    lastOwn c read 0 = some (n, r, rs) ∧ o.nbdServer n = 0 ∧
    ∃ remote r' rs', readDMBDRemote c.json (some (cstr v.buffer)) = some remote ∧
      r' :: rs' ∈ remote.tails ∧ ipOf (r' :: rs') = c.myNode.ip ∧
      bestioCmd c r' = bestioCmd c r ∧
      fprintf c.junk (nbdConfigMsg (r' :: rs')) = fprintf c.junk (nbdConfigMsg (r :: rs))

/-- Where the message was stored whole, that is an own entry in it whose `nbd-server` runs. -/
theorem readsOwnEntry_whole {c : Setup} {o : Outcomes} {v : Vars} (hopen : o.configOpen = true)
    (hwritten : (cstr v.buffer).length ≤ o.configWritten) :
    ReadsOwnEntry c o v ↔ ∃ remote n r rs,
      readDMBDRemote c.json (some (cstr v.buffer)) = some remote ∧
        lastOwn c remote 0 = some (n, r, rs) ∧ o.nbdServer n = 0 := by
  have hfile : (fileRead o v).dmbdConfig = some (cstr v.buffer) := by
    unfold fileRead stored
    rw [if_pos hopen]
    exact congrArg some (List.take_of_length_le hwritten)
  unfold ReadsOwnEntry
  rw [hfile]
  constructor
  · rintro ⟨read, n, r, rs, hread, hown, hret, _⟩
    exact ⟨read, n, r, rs, hread, hown, hret⟩
  · rintro ⟨read, n, r, rs, hread, hown, hret⟩
    obtain ⟨hmem, hip⟩ := lastOwn_mem hown
    exact ⟨read, n, r, rs, hread, hown, hret, read, r, rs, hread, hmem, hip, rfl, rfl⟩

/-- An answer comes from the handling of a message. -/
theorem reply_of_mem_step {c : Setup} {v : Vars} {j : Int} {r : Option Bytes} {o : Outcomes}
    {i : Int} {msg : Bytes} (h : .reply i msg ∈ (step c v (.read j r o)).2) :
    v.running = true ∧ r ≠ some [] ∧ .reply i msg ∈ (handle c o j (afterRead v r)).events := by
  have hrun := running_of_mem_step h
  by_cases hr : r = some []
  · unfold step serve at h
    rw [if_pos hrun] at h
    simp only [if_pos hr, List.mem_singleton] at h
    cases h
  · rw [step_message hrun hr] at h
    rcases List.mem_cons.mp h with h | h
    · cases h
    · exact ⟨hrun, hr, h⟩

theorem setConfig_reply_go {c : Setup} {o : Outcomes} {i j : Int} {v : Vars} {msg : Bytes}
    (h : .reply j msg ∈ (setConfig c o i v).events) : (setConfig c o i v).exit = .go := by
  by_cases hs : v.successFlag = 1
  · unfold setConfig at h
    rw [if_pos hs] at h
    exact absurd h List.not_mem_nil
  · obtain ⟨es, hes, heq⟩ := setConfig_stored (c := c) (o := o) hs i
    rw [heq, Done.ok_andThen] at h ⊢
    rcases List.mem_append.mp h with h | h
    · cases hes _ h
    · unfold withRemote at h ⊢
      cases hr : readDMBDRemote c.json (fileRead o v).dmbdConfig with
      | none =>
        rw [hr] at h
        exact absurd h List.not_mem_nil
      | some remote =>
        rw [hr] at h
        exact (loadConfig_reply h).1

/-- **What stands behind a "success"**: the commands and the file are the handler's. -/
theorem handle_ran {c : Setup} {o : Outcomes} {i j : Int} {v : Vars}
    (h : .reply j (nulTerminated "success") ∈ (handle c o i v).events) :
    ∃ read, readDMBDRemote c.json (fileRead o v).dmbdConfig = some read ∧
      Ran c o read v (handle c o i v) := by
  have hhandler : .reply j (nulTerminated "success") ∈
      (handler c o i (cstr v.buffer) v).events :=
    (Done.mem_andThen.mp h).resolve_right fun h => gates_not_reply h.2
  have hcmd := handler_success hhandler
  have heq : handler c o i (cstr v.buffer) v = setConfig c o i v := by
    unfold handler
    rw [hcmd]
  rw [heq] at hhandler
  have hgo := setConfig_reply_go hhandler
  obtain ⟨read, hread, hran⟩ := setConfig_ran hgo
  obtain ⟨hfile, hsites⟩ := gates_unserved c o (setConfig c o i v).state
  have hnone₁ : launches .configInsmod (gates c o (setConfig c o i v).state).events = [] :=
    launches_eq_nil fun cmd ret he => (hsites _ he cmd ret).1 rfl
  have hnone₂ : launches .nbdServer (gates c o (setConfig c o i v).state).events = [] :=
    launches_eq_nil fun cmd ret he => (hsites _ he cmd ret).2 rfl
  rw [handle_setConfig hcmd, Done.andThen_go hgo]
  refine ⟨read, hread, ?_, hran.printed, hfile.trans hran.nbdConfig, ?_⟩
  · rw [launches_append, hnone₁, List.append_nil, hran.insmod]
  · rw [launches_append, hnone₂, List.append_nil, hran.nbdServer]

/-- **What a "success" is about**, over every run: an entry of its message exactly when the file
that is read back has that entry's texts in its last own entry and `nbd-server` runs on it. -/
theorem success_about_iff (c : Setup) (v₀ : Vars) (is : List Input) :
    ∀ t ∈ trace (step c) v₀ is, ∀ i r o, t.input = .read i r o →
      .reply i (nulTerminated "success") ∈ t.events →
        (AboutMessage c (textOf t.before r) (step c t.before t.input).1 t.events ↔
          ReadsOwnEntry c o (afterRead t.before r)) := by
  have hstep : ∀ v inp, True → True → True ∧ ∀ i r o, inp = .read i r o →
      .reply i (nulTerminated "success") ∈ (step c v inp).2 →
        (AboutMessage c (textOf v r) (step c v inp).1 (step c v inp).2 ↔
          ReadsOwnEntry c o (afterRead v r)) := by
    rintro v inp - -
    refine ⟨trivial, ?_⟩
    rintro i r o rfl h
    obtain ⟨hrun, hr, hreply⟩ := reply_of_mem_step h
    obtain ⟨read, hread, hran⟩ := handle_ran hreply
    have hlaunches : ∀ site, launches site (step c v (.read i r o)).2 =
        launches site (handle c o i (afterRead v r)).events := by
      intro site
      rw [step_message hrun hr]
      rfl
    have hfile : (step c v (.read i r o)).1.nbdConfig =
        (handle c o i (afterRead v r)).state.nbdConfig := by
      rw [step_message hrun hr]
    unfold AboutMessage ReadsOwnEntry
    rw [hlaunches, hlaunches, hfile, hran.insmod, hran.nbdConfig, hran.nbdServer,
      ownBestioCmd_eq read 0, hread]
    cases hown : lastOwn c read 0 with
    | none =>
      refine iff_of_false ?_ ?_
      · rintro ⟨_, _, _, _, _, _, _, _, hnone⟩
        cases hnone
      · rintro ⟨_, _, _, _, heq, hnone, _⟩
        cases heq
        rw [hown] at hnone
        cases hnone
    | some own =>
      obtain ⟨n, r₀, rs₀⟩ := own
      constructor
      · rintro ⟨remote, r', rs', hmsg, hmem, hip, hcmd, ⟨file, hprint, hnbd⟩, hserver⟩
        have hcmd' : bestioCmd c r₀ = bestioCmd c r' := (Prod.mk.inj (List.cons.inj hcmd).1).1
        have hret : o.nbdServer n = 0 := (Prod.mk.inj (Option.some.inj hserver)).2
        exact ⟨read, n, r₀, rs₀, rfl, hown, hret, remote, r', rs', hmsg, hmem, hip, hcmd'.symm,
          hprint.trans hnbd.symm⟩
      · rintro ⟨_, _, _, _, heq, hown', hret, remote, r', rs', hmsg, hmem, hip, hcmd, hnbd⟩
        cases heq
        rw [hown] at hown'
        cases hown'
        obtain ⟨file, hfile⟩ := lastOwn_prints hran.printed hown
        refine ⟨remote, r', rs', hmsg, hmem, hip, ?_, ⟨file, hnbd.trans hfile, hfile⟩, ?_⟩
        · rw [hcmd]
          rfl
        · rw [← hret]
          rfl
  exact forall_trace (P := fun v inp es => ∀ i r o, inp = .read i r o →
    .reply i (nulTerminated "success") ∈ es →
      (AboutMessage c (textOf v r) (step c v inp).1 es ↔ ReadsOwnEntry c o (afterRead v r)))
    hstep is v₀ trivial fun _ _ => trivial

/-- json-c on a configuration with an own entry and on one without. -/
def bothJson : JsonC :=
  jsonOf [(pairConfig, .obj [(ascii "remote", some (.arr [some ownEntry, some sampleEntry]))]),
    (sampleConfig, .obj [(ascii "remote", some (.arr [some sampleEntry]))])]

/-- Every call succeeds but the `insmod` of a configuration. -/
def insmodFails : Outcomes := { allOk with configInsmod := 256 }

/-- A configuration with an own entry whose `insmod` fails, and one without that is sent after
it. -/
def afterFailure : List Input :=
  [.accept 4, .read 4 (some (pairConfig ++ [0])) insmodFails,
    .read 4 (some (sampleConfig ++ [0])) allOk]

/-- The second is answered "success", with the command of the first. -/
theorem success_about_other :
    (startVars none).Start (twoServers bothJson) ∧
      ∃ t ∈ trace (step (twoServers bothJson)) (startVars none) afterFailure,
        t.input = .read 4 (some (sampleConfig ++ [0])) allOk ∧
          .reply 4 (nulTerminated "success") ∈ t.events ∧
          .launch .configInsmod
            (ascii ("insmod /etc/jcm/bestio/go.ko memory_size=1024 back_major=8" ++
              " back_minor=32")) 0 ∈ t.events ∧
          ¬ AboutMessage (twoServers bothJson) (textOf t.before (some (sampleConfig ++ [0])))
            (step (twoServers bothJson) t.before t.input).1 t.events := by
  refine ⟨startVars_start _ _ _ _, _, List.mem_cons_of_mem _ (List.mem_cons_of_mem _
    List.mem_cons_self), rfl, by decide +kernel, by decide +kernel, ?_⟩
  rintro ⟨remote, r, rs, hread, hmem, hip, _⟩
  have hnone : (readDMBDRemote bothJson (some sampleConfig)).all
      (fun remote => decide (¬ HasOwnEntry (twoServers bothJson) remote)) = true := by
    decide +kernel
  have htext : ∀ v, textOf v (some (sampleConfig ++ [0])) = sampleConfig := by
    intro v
    unfold textOf
    rw [cstr_readTerm_some]
    decide +kernel
  rw [htext] at hread
  have hread' : readDMBDRemote bothJson (some sampleConfig) = some remote := hread
  rw [hread'] at hnone
  exact of_decide_eq_true hnone ⟨r, rs, hmem, hip⟩

/-- With an own entry, and where every call succeeds, it is about that entry. -/
theorem success_about_pair :
    AboutMessage (twoServers bothJson) (textOf (startVars none) (some (pairConfig ++ [0])))
      (step (twoServers bothJson) (startVars none)
        (.read 4 (some (pairConfig ++ [0])) allOk)).1
      (step (twoServers bothJson) (startVars none)
        (.read 4 (some (pairConfig ++ [0])) allOk)).2 := by
  refine (success_about_iff (twoServers bothJson) (startVars none)
    [.read 4 (some (pairConfig ++ [0])) allOk] ⟨startVars none, _, _⟩ List.mem_cons_self 4
    (some (pairConfig ++ [0])) allOk rfl (by decide +kernel)).mpr ?_
  refine (readsOwnEntry_whole rfl (by decide +kernel)).mpr ?_
  have hown : (readDMBDRemote bothJson (some pairConfig)).any
      (fun remote => (lastOwn (twoServers bothJson) remote 0).isSome) = true := by decide +kernel
  have htext : cstr (afterRead (startVars none) (some (pairConfig ++ [0]))).buffer =
      pairConfig := by decide +kernel
  rw [htext]
  obtain ⟨remote, hread, hsome⟩ := (Option.any_eq_true _ _).mp hown
  obtain ⟨⟨n, r, rs⟩, hlast⟩ := Option.isSome_iff_exists.mp hsome
  exact ⟨remote, n, r, rs, hread, hlast, rfl⟩

end JcmController.Controller
