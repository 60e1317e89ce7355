import JcmController.Controller.Success
import JcmController.Lib.Balance

/-!
# The descriptors of one message

`account es d` is the number of descriptors of origin `d` that the events `es` open, less those
they close. The senders never close their socket, `msg_send` not the file it reads either, and the
configuration handler not the one it writes.

* `send_account`: a sender leaves its socket open.
* `setConfig_account`, `mountHandler_account`: the handlers that open something.
* **`handle_account`**: a message that is handled to its end leaves the table as it was exactly
  when none of these calls opened anything.
-/

namespace JcmController.Controller

open JcmController.Lib

/-- What an event does to the number of open descriptors of origin `d`. -/
def Event.effect : Event → Desc → Int
  | .opened d', d => if d' = d then 1 else 0
  | .closed d', d => if d' = d then -1 else 0
  | _, _ => 0

/-- What these events do to it. -/
def account (es : List Event) (d : Desc) : Int := balance Event.effect es d

/-- The connections are the main loop's own business. -/
def Desc.IsConn (d : Desc) : Prop := ∃ fd, d = .conn fd

theorem account_append (es es' : List Event) (d : Desc) :
    account (es ++ es') d = account es d + account es' d := balance_append es es'

/-- A statement that leaves the table alone does so after another one, too. -/
theorem account_andThen {r : Done Vars Event} {f : Vars → Done Vars Event} {d : Desc}
    (hf : ∀ v, account (f v).events d = 0) :
    account (r.andThen f).events d = account r.events d := by
  by_cases hgo : r.exit = .go
  · rw [Done.andThen_go hgo, account_append, hf, Int.add_zero]
  · rw [Done.andThen_stop hgo]

/-! ## The senders -/

/-- An event that is no `open` and no `close`. -/
def Event.Idle (e : Event) : Prop := ∀ d, e.effect d = 0

theorem account_idle {es : List Event} (h : ∀ e ∈ es, e.Idle) (d : Desc) : account es d = 0 :=
  balance_eq_zero fun e he => h e he d

theorem Event.OfSender.effect_nonneg {e : Event} (h : e.OfSender) (d : Desc) : 0 ≤ e.effect d := by
  cases e with
  | opened d' =>
    show 0 ≤ if d' = d then (1 : Int) else 0
    by_cases hd : d' = d
    · rw [if_pos hd]
      decide
    · rw [if_neg hd]
  | closed => exact absurd h id
  | _ => exact Int.le_refl 0

theorem send_ofSender {c : Setup} {f : SendFn} {net : Net}
    {body : Nat → Sender → Sender × List Event} (hbody : ∀ n s, ∀ e ∈ (body n s).2, e.OfBody)
    (v : Vars) : ∀ e ∈ (send c f net body v).2, e.OfSender :=
  (send_keeps (P := fun _ => True) (fun n s _ => ⟨trivial, fun e he => (hbody n s e he).ofSender⟩)
    (fun _ _ => trivial) (Or.inl rfl) trivial).2

/-- **A sender leaves its socket open**, and opens nothing if it gets none. -/
theorem send_account (c : Setup) (f : SendFn) (net : Net)
    {body : Nat → Sender → Sender × List Event} (hbody : ∀ n s, ∀ e ∈ (body n s).2, e.OfBody)
    (v : Vars) :
    (net.socket < 0 → ∀ d, account (send c f net body v).2 d = 0) ∧
      (0 ≤ net.socket → 1 ≤ account (send c f net body v).2 .socket) := by
  constructor
  · intro hneg d
    have hconn : ∀ n connected, net.connects n connected = false := by
      intro n connected
      unfold Net.connects
      rw [decide_eq_false (not_le.mpr hneg), Bool.false_and]
    rw [send_eq_visit]
    unfold Net.socketEvents
    rw [if_neg (not_le.mpr hneg), List.nil_append]
    cases c.others with
    | nil => rfl
    | cons n ns =>
      unfold visit
      rw [hconn, if_neg Bool.false_ne_true]
      rfl
  · intro hpos
    refine one_le_balance (e := .opened .socket)
      (fun e he => (send_ofSender hbody v e he).effect_nonneg _) ?_ rfl
    unfold send Net.socketEvents
    rw [if_pos hpos]
    exact List.mem_cons_self

theorem mountBody_ofBody {net : Net} {buf : Bytes} {n : Nat} {s : Sender} :
    ∀ e ∈ (mountBody net buf n s).2, e.OfBody := by
  intro e he
  rw [List.mem_singleton.mp he]
  trivial

/-! ## The handlers -/

/-- Unless the statement ends the process, it leaves the table of this origin as it was. -/
def Settles (d : Desc) (r : Done Vars Event) : Prop := r.exit ≠ .crash → account r.events d = 0

theorem Settles.andThen {d : Desc} {r : Done Vars Event} {f : Vars → Done Vars Event}
    (hr : Settles d r) (hf : ∀ w, Settles d (f w)) : Settles d (r.andThen f) := by
  intro hx
  by_cases hgo : r.exit = .go
  · rw [Done.andThen_go hgo] at hx
    rw [Done.andThen_go hgo, account_append, hf r.state hx, Int.add_zero]
    exact hr (hgo.trans_ne Exit.noConfusion)
  · rw [Done.andThen_stop hgo] at hx ⊢
    exact hr hx

theorem settles_of_idle {d : Desc} {r : Done Vars Event} (h : ∀ e ∈ r.events, e.Idle) :
    Settles d r := fun _ => account_idle h d

theorem withRemote_settles {c : Setup} {v : Vars} {f : List DmbdConfigRemote → Done Vars Event}
    {d : Desc} (hf : ∀ remote, Settles d (f remote)) : Settles d (withRemote c v f) := by
  unfold withRemote
  cases readDMBDRemote c.json v.dmbdConfig with
  | none => exact fun hx => absurd rfl hx
  | some remote => exact hf remote

/-- A file that is written is closed again. -/
theorem printFile_settles (c : Setup) (d' : Desc) (opens : Bool) (msg : Bytes) (put : Bytes → Vars)
    (v : Vars) (d : Desc) : Settles d (printFile c d' opens msg put v) := by
  rcases printFile_cases c d' opens msg put v with ⟨-, text, -, heq⟩ | ⟨-, hcrash⟩
  · rw [heq]
    intro _
    show (if _ then (1 : Int) else 0) + ((if _ then -1 else 0) + 0) = 0
    by_cases hd : d' = d
    · rw [if_pos hd, if_pos hd]
      decide
    · rw [if_neg hd, if_neg hd]
      decide
  · exact fun hx => absurd hcrash hx

theorem startNbdServers_settles (c : Setup) (o : Outcomes) (d : Desc) :
    ∀ (rs : List DmbdConfigRemote) (n : Nat) (v : Vars), Settles d (startNbdServers c o rs n v)
  | [], _, _ => fun _ => rfl
  | r :: rs, n, v => by
    unfold startNbdServers
    by_cases hip : ipOf (r :: rs) = c.myNode.ip
    · rw [if_pos hip]
      refine Settles.andThen (printFile_settles _ _ _ _ _ _ d) fun w =>
        Settles.andThen (fun _ => rfl) ?_
      exact startNbdServers_settles c o d rs (n + 1)
    · rw [if_neg hip]
      exact startNbdServers_settles c o d rs (n + 1) v

theorem loadConfig_settles (c : Setup) (o : Outcomes) (i : Int) (remote : List DmbdConfigRemote)
    (v : Vars) (d : Desc) : Settles d (loadConfig c o i remote v) := by
  unfold loadConfig
  by_cases hi : o.configInsmod ≠ 0
  · simp only [if_pos hi]
    exact fun _ => rfl
  · simp only [if_neg hi]
    exact Settles.andThen (Settles.andThen (fun _ => rfl) (startNbdServers_settles c o d remote 0))
      fun _ _ => rfl

/-- **The configuration handler leaves `dmbd_config` open.** -/
theorem setConfig_account {c : Setup} {o : Outcomes} {i : Int} {v : Vars}
    (hx : (setConfig c o i v).exit ≠ .crash) (d : Desc) :
    account (setConfig c o i v).events d =
      if v.successFlag ≠ 1 ∧ o.configOpen = true then if Desc.config = d then 1 else 0 else 0 := by
  unfold setConfig at hx ⊢
  by_cases hs : v.successFlag = 1
  · rw [if_pos hs, if_neg fun h => h.1 hs]
    rfl
  · have hread : ∀ w, Settles d (withRemote c w fun remote => loadConfig c o i remote w) := fun w =>
      withRemote_settles fun remote => loadConfig_settles c o i remote w d
    unfold writeConfig at hx ⊢
    rw [if_neg hs] at hx ⊢
    by_cases ho : o.configOpen = true
    · rw [if_pos ho, Done.ok_andThen] at hx ⊢
      rw [if_pos ⟨hs, ho⟩, account_append, hread _ hx, Int.add_zero]
      exact Int.add_zero _
    · rw [if_neg ho, Done.ok_andThen] at hx ⊢
      rw [if_neg fun h => ho h.2, account_append, hread _ hx]
      rfl

theorem mountedEvents_idle (c : Setup) (o : Outcomes) (myobj : Option Json) :
    ∀ e ∈ mountedEvents c o myobj, e.Idle := by
  intro e he
  rcases List.mem_append.mp he with he | he
  · by_cases ha : o.access ≠ 0
    · rw [if_pos ha] at he
      rw [List.mem_singleton.mp he]
      exact fun _ => rfl
    · rw [if_neg ha] at he
      exact absurd he List.not_mem_nil
  · rw [List.mem_singleton.mp he]
    exact fun _ => rfl

/-- **A mount leaves the socket of `mount_msg_send` open**, if it gets as far. -/
theorem mountHandler_account (c : Setup) (o : Outcomes) (myobj : Option Json) (v : Vars) :
    (o.mount < 0 ∨ o.mountNet.socket < 0 → ∀ d, Settles d (mountHandler c o myobj v)) ∧
      (¬ o.mount < 0 → 0 ≤ o.mountNet.socket → (mountHandler c o myobj v).exit = .go →
        1 ≤ account (mountHandler c o myobj v).events .socket) := by
  have hbody : ∀ n s, ∀ e ∈ (mountBody o.mountNet (mountCmd c.myNode.ip) n s).2, e.OfBody :=
    fun _ _ => mountBody_ofBody
  have hsend := fun w => send_account c .mountMsgSend o.mountNet hbody w
  have hprint : ∀ d, Settles d ((Done.ok v (mountedEvents c o myobj)).andThen
      (printMountFile c o c.myNode.ip)) := fun d =>
    Settles.andThen (settles_of_idle (mountedEvents_idle c o myobj))
      fun _ => printFile_settles _ _ _ _ _ _ d
  by_cases hm : o.mount < 0
  · rw [mountHandler_fails hm]
    exact ⟨fun _ d => settles_of_idle (mountedEvents_idle c o myobj), fun h => absurd hm h⟩
  · rw [mountHandler_eq hm]
    refine ⟨fun h d => Settles.andThen (hprint d) fun w _ => ?_, fun _ hpos hx => ?_⟩
    · exact (hsend w).1 (h.resolve_left hm) d
    · have hgo := Done.andThen_exit_go hx
      rw [Done.andThen_go hgo, account_append,
        hprint .socket (hgo.trans_ne Exit.noConfusion), Int.zero_add]
      exact (hsend _).2 hpos

/-! ## The gates -/

theorem activate_idle (c : Setup) (o : Outcomes) (remote : List DmbdConfigRemote) (n : Nat)
    (v : Vars) : ∀ e ∈ (activate c o remote n v).2, e.Idle := by
  intro e he
  obtain ⟨site, cmd, ret, rfl⟩ := (activate_keeps c o remote n v).2 e he
  exact fun _ => rfl

/-- The gates close nothing. -/
theorem gates_effect_nonneg {c : Setup} {o : Outcomes} {v : Vars} {e : Event}
    (he : e ∈ (gates c o v).events) (d : Desc) : 0 ≤ e.effect d := by
  rcases Done.mem_andThen.mp he with he | ⟨_, he⟩
  · rcases Done.mem_andThen.mp he with he | ⟨_, he⟩
    · rcases mem_countGate he with ⟨_, _, _, rfl⟩ | h
      · exact Int.le_refl 0
      · exact h.effect_nonneg d
    · rw [mem_nbdGate he]
      exact Int.le_refl 0
  · rw [mem_unsuccessGate he]
    exact Int.le_refl 0

/-- Without a broadcast they open nothing either. -/
theorem gates_account {c : Setup} {v : Vars} (h : v.count ≠ c.serverLen - 1 ∨ v.count = 0)
    (o : Outcomes) (d : Desc) : account (gates c o v).events d = 0 := by
  have hcount : account (countGate c o v).events d = 0 := by
    by_cases hc : v.count = c.serverLen - 1
    · unfold countGate withRemote
      rw [if_pos hc]
      cases readDMBDRemote c.json v.dmbdConfig with
      | none => rfl
      | some remote =>
        obtain ⟨cmd, ha⟩ := (activate_keeps c o remote 0 v).1
        refine account_idle (fun e he => ?_) d
        rcases List.mem_append.mp he with he | he
        · exact activate_idle c o remote 0 v e he
        · rw [ha] at he
          unfold loadDisk at he
          rw [if_neg fun hl => hl.2 (h.resolve_left (not_not_intro hc))] at he
          rw [List.mem_singleton.mp he]
          exact fun _ => rfl
    · rw [countGate_ne hc]
      rfl
  have hnbd : ∀ w, account (nbdGate c w).events d = 0 := fun w =>
    account_idle (fun e he => by rw [mem_nbdGate he]; exact fun _ => rfl) d
  have hunsuccess : ∀ w, account (unsuccessGate w).events d = 0 := fun w =>
    account_idle (fun e he => by rw [mem_unsuccessGate he]; exact fun _ => rfl) d
  unfold gates
  rw [account_andThen hunsuccess, account_andThen hnbd, hcount]

/-! ## One message -/

/-- No call of the message's handling opens a descriptor that it leaves open: a request finds no
other server, or gets no socket; a configuration comes too late, or its file cannot be opened; a
mount fails, or gets no socket. -/
def LeavesNone (c : Setup) (o : Outcomes) (v : Vars) : Prop :=
  match commandOf c (cstr v.buffer) with
  | .userSetConfig => ¬ c.serverLen > 1 ∨ o.msgNet.socket < 0
  | .setConfig => v.successFlag = 1 ∨ o.configOpen = false
  | .mount => o.mount < 0 ∨ o.mountNet.socket < 0
  | _ => True

/-- The handler of a message, by itself. -/
theorem handler_account {c : Setup} {o : Outcomes} {i : Int} {v : Vars}
    (hx : (handler c o i (cstr v.buffer) v).exit ≠ .crash) :
    (LeavesNone c o v → ∀ d, account (handler c o i (cstr v.buffer) v).events d = 0) ∧
      (¬ LeavesNone c o v →
        ∃ d, ¬ d.IsConn ∧ 1 ≤ account (handler c o i (cstr v.buffer) v).events d) := by
  have hsocket : ¬ Desc.socket.IsConn := by
    rintro ⟨fd, h⟩
    cases h
  have hconfig : ¬ Desc.config.IsConn := by
    rintro ⟨fd, h⟩
    cases h
  unfold handler at hx ⊢
  unfold LeavesNone
  revert hx
  cases commandOf c (cstr v.buffer) with
  | setConfig =>
    intro hx
    simp only [setConfig_account hx]
    refine ⟨fun h d => ?_, fun h => ⟨.config, hconfig, ?_⟩⟩
    · rw [if_neg fun hs => h.elim hs.1 fun ho => Bool.false_ne_true (ho.symm.trans hs.2)]
    · obtain ⟨hs, ho⟩ := not_or.mp h
      rw [if_pos ⟨hs, Bool.not_eq_false _ ▸ ho⟩, if_pos rfl]
  | userSetConfig =>
    intro _
    have hbody : ∀ n s, ∀ e ∈ (msgBody o.msgNet controllerCmd n s).2, e.OfBody :=
      fun _ _ => msgBody_ofBody
    obtain ⟨hneg, hpos⟩ := send_account c .msgSend o.msgNet hbody v
    simp only
    unfold userSetConfig
    by_cases hl : c.serverLen > 1
    · simp only [if_pos hl]
      refine ⟨fun h => hneg (h.resolve_left (not_not_intro hl)), fun h => ?_⟩
      exact ⟨.socket, hsocket, hpos (not_lt.mp (not_or.mp h).2)⟩
    · simp only [if_neg hl]
      exact ⟨fun _ _ => rfl, fun h => absurd (Or.inl hl) h⟩
  | controllerSetConfig => exact fun _ => ⟨fun _ _ => rfl, fun h => absurd trivial h⟩
  | mount =>
    intro hx
    obtain ⟨hnone, hsome⟩ := mountHandler_account c o (c.json.tokenerParse (cstr v.buffer)) v
    refine ⟨fun h d => hnone h d hx, fun h => ⟨.socket, hsocket, ?_⟩⟩
    obtain ⟨hm, hs⟩ := not_or.mp h
    refine hsome hm (not_lt.mp hs) ?_
    by_contra hgo
    exact hx (mountHandler_crash hm hgo)
  | mountSetOn =>
    exact fun hx => ⟨fun _ d => printFile_settles _ _ _ _ _ _ d hx, fun h => absurd trivial h⟩
  | nbdSetOn =>
    have hsettles : ∀ d, Settles d (nbdSetOn c i v) := fun d => withRemote_settles fun _ _ => rfl
    exact fun hx => ⟨fun _ d => hsettles d hx, fun h => absurd trivial h⟩
  | unknown => exact fun _ => ⟨fun _ _ => rfl, fun h => absurd trivial h⟩

/-- The round a message leaves to the gates, where its handler left no descriptor. -/
theorem handler_count {c : Setup} {o : Outcomes} {i : Int} {v : Vars} (hs : Settled c v)
    (hz : Uncounted c v) (hnone : LeavesNone c o v) :
    (handler c o i (cstr v.buffer) v).state.count ≠ c.serverLen - 1 ∨
      (handler c o i (cstr v.buffer) v).state.count = 0 := by
  have hv : v.count ≠ c.serverLen - 1 ∨ v.count = 0 := by
    by_cases hl : 2 ≤ c.serverLen
    · exact Or.inl (hs.count hl)
    · exact Or.inr (hz hl)
  have hsame : (handler c o i (cstr v.buffer) v).state.count = v.count := by
    by_cases hcmd : commandOf c (cstr v.buffer) = .userSetConfig
    · unfold handler LeavesNone at *
      rw [hcmd] at hnone ⊢
      show (userSetConfig c o v).state.count = v.count
      rw [userSetConfig_state]
      have htexts : msgTexts o.msgNet false o.msgNet.stack c.others = [] := by
        rcases hnone with hl | hneg
        · rw [others_eq_nil hl]
          rfl
        · cases c.others with
          | nil => rfl
          | cons n ns =>
            rw [msgTexts, Net.connects, decide_eq_false (not_le.mpr hneg), Bool.false_and,
              if_neg Bool.false_ne_true]
      unfold answered
      rw [htexts, answeredBy_nil]
    · exact (handler_still hcmd).1.count
  rwa [hsame]

/-- **The descriptors of a message** that is handled to its end: the table is as before exactly
when no call left one open. -/
theorem handle_account {c : Setup} {o : Outcomes} {i : Int} {v : Vars} (hs : Settled c v)
    (hz : Uncounted c v) (hx : (handle c o i v).exit ≠ .crash) :
    (∀ d, ¬ d.IsConn → account (handle c o i v).events d = 0) ↔ LeavesNone c o v := by
  have hx' : (handler c o i (cstr v.buffer) v).exit ≠ .crash := by
    intro hc
    refine hx ?_
    unfold handle
    rw [Done.andThen_stop (by rw [hc]; exact Exit.noConfusion)]
    exact hc
  obtain ⟨hnone, hsome⟩ := handler_account hx'
  constructor
  · intro h
    by_contra hleaves
    obtain ⟨d, hd, hone⟩ := hsome hleaves
    have hzero := h d hd
    unfold handle at hzero
    by_cases hgo : (handler c o i (cstr v.buffer) v).exit = .go
    · rw [Done.andThen_go hgo, account_append] at hzero
      have hpos : 0 ≤ account (gates c o (handler c o i (cstr v.buffer) v).state).events d :=
        balance_nonneg fun e he => gates_effect_nonneg he d
      omega
    · rw [Done.andThen_stop hgo] at hzero
      omega
  · intro hleaves d _
    unfold handle
    by_cases hgo : (handler c o i (cstr v.buffer) v).exit = .go
    · rw [Done.andThen_go hgo, account_append, hnone hleaves,
        gates_account (handler_count hs hz hleaves), Int.zero_add]
    · rw [Done.andThen_stop hgo, hnone hleaves]

end JcmController.Controller
