import JcmController.Controller.Handled

/-!
# Calls that do not come back

In `step` every call returns. Of those in the handling of a message some need not: a read of
`msg_send` or `nbd_msg_send` waits for an answer and has no timeout, a `write` to a connection that
was reset raises `SIGPIPE`, which nothing catches, `system` waits for its command. The process waits
there for ever or is killed, and it is all the same to the loop, which does not go on.

* `Stalls` says which calls do not come back while one message is handled; `stallStep` is `step`
  where they do not.
* `stallStep_none`: it is `step` where all of them do.
* **`handle_hangs_iff`**: when the handling gets to such a call, in terms of the state before it.
* `stallServe_ends_iff`: when the loop ends at a ready descriptor.

Calls on files, `mkdir` and `mount` do come back.
-/

namespace JcmController.Controller

open JcmController.Lib

/-- Which calls do not come back in the handling of one message: `system` at a site, what a sender
does with a server after `connect`, the `write` of the answer and those of the two verdicts. `left`
is what is then in memory and in the files, which may be anything. -/
structure Stalls where
  launch : Site → Bool
  exchange : SendFn → Nat → Bool
  reply : Bool
  success : Bool
  unsuccess : Bool
  left : Vars

/-- All of them do. -/
def noStalls : Stalls :=
  ⟨fun _ => false, fun _ _ => false, false, false, false, startVars none⟩

section Cut

variable (st : Stalls)

/-- The verdict is one that is not got rid of. -/
def Stalls.verdict (text : Bytes) : Bool :=
  if text = ascii "success" then st.success else st.unsuccess

/-- The call, or the one after it, does not come back. -/
def Stalls.stops : Event → Bool
  | .launch site _ _ => st.launch site
  | .connect f n ok => ok && st.exchange f n
  | .reply _ _ => st.reply
  | .verdict _ text => st.verdict text
  | _ => false

/-- The handling gets to such a call. -/
def Hangs (es : List Event) : Prop := ∃ e ∈ es, st.stops e = true

instance (es : List Event) : Decidable (Hangs st es) := inferInstanceAs (Decidable (∃ e ∈ es, _))

/-- What is done at one ready descriptor, up to such a call. -/
def stallServe (c : Setup) (v : Vars) (inp : Input) : Vars × List Event :=
  let r := serve c v inp
  if Hangs st r.2 then
    ({ st.left with fsStatus := r.1.fsStatus, maxfd := r.1.maxfd, running := false },
      r.2.takeWhile fun e => !st.stops e)
  else r

end Cut

/-- The loop, with what does not come back at each ready descriptor. -/
def stallStep (c : Setup) (v : Vars) (inp : Input × Stalls) : Vars × List Event :=
  if v.running then stallServe inp.2 c v inp.1 else (v, [])

theorem not_hangs_none (es : List Event) : ¬ Hangs noStalls es := by
  rintro ⟨e, _, he⟩
  cases e with
  | connect f n ok => cases ok <;> cases he
  | verdict fd text =>
    have hnone : noStalls.verdict text = false := ite_self false
    exact Bool.noConfusion (hnone.symm.trans he)
  | _ => cases he

/-- **Where every call comes back the step is that of `step`.** -/
theorem stallStep_none (c : Setup) (v : Vars) (inp : Input) :
    stallStep c v (inp, noStalls) = step c v inp := by
  unfold stallStep step stallServe
  simp only [if_neg (not_hangs_none _)]

section Hangs

variable {st : Stalls}

theorem hangs_nil : ¬ Hangs st [] := fun ⟨_, he, _⟩ => List.not_mem_nil he

theorem hangs_append {es es' : List Event} : Hangs st (es ++ es') ↔ Hangs st es ∨ Hangs st es' := by
  unfold Hangs
  simp only [List.mem_append, or_and_right, exists_or]

theorem hangs_cons {e : Event} {es : List Event} :
    Hangs st (e :: es) ↔ st.stops e = true ∨ Hangs st es := List.exists_mem_cons_iff _ _ _

theorem hangs_singleton {e : Event} : Hangs st [e] ↔ st.stops e = true :=
  hangs_cons.trans (or_iff_left hangs_nil)

theorem not_hangs_of {es : List Event} (h : ∀ e ∈ es, st.stops e = false) : ¬ Hangs st es := by
  rintro ⟨e, he, hs⟩
  exact Bool.noConfusion ((h e he).symm.trans hs)

/-- Two statements: the second counts if the first goes on. -/
theorem hangs_andThen {r : Done Vars Event} {f : Vars → Done Vars Event} :
    Hangs st (r.andThen f).events ↔
      Hangs st r.events ∨ r.exit = .go ∧ Hangs st (f r.state).events := by
  unfold Hangs
  simp only [Done.mem_andThen, or_and_right, exists_or, and_assoc, exists_and_left]

/-! ## The senders -/

/-- The servers that a sender gets to. -/
def reached (net : Net) : Bool → List Nat → List Nat
  | _, [] => []
  | connected, n :: ns => if net.connects n connected then n :: reached net true ns else []

/-- What a sender does with one of the servers it gets to does not come to an end. -/
def StallsSend (st : Stalls) (c : Setup) (f : SendFn) (net : Net) : Prop :=
  ∃ n ∈ reached net false c.others, st.exchange f n = true

theorem stops_ofBody {e : Event} (h : e.OfBody) : st.stops e = false := by
  cases e with
  | connect f n ok => exact h.elim
  | launch site cmd ret => exact h.elim
  | reply i msg => exact h.elim
  | verdict fd text => exact h.elim
  | _ => rfl

theorem hangs_visit {f : SendFn} {net : Net} {body : Nat → Sender → Sender × List Event}
    (hbody : ∀ n s, ∀ e ∈ (body n s).2, e.OfBody)
    (hconn : ∀ n s, (body n s).1.connected = s.connected) :
    ∀ (ns : List Nat) (s : Sender), Hangs st (visit f net body ns s).2 ↔
      ∃ n ∈ reached net s.connected ns, st.exchange f n = true
  | [], s => by
    refine iff_of_false hangs_nil ?_
    rintro ⟨n, hn, _⟩
    exact List.not_mem_nil hn
  | n :: ns, s => by
    unfold visit reached
    by_cases hn : net.connects n s.connected = true
    · have hnone : ¬ Hangs st (body n { s with connected := true }).2 :=
        not_hangs_of fun e he => stops_ofBody (hbody n _ e he)
      have ih : Hangs st (visit f net body ns (body n { s with connected := true }).1).2 ↔ _ :=
        hangs_visit hbody hconn ns (body n { s with connected := true }).1
      rw [hconn] at ih
      rw [if_pos hn, if_pos hn, List.exists_mem_cons_iff]
      show Hangs st (.connect f n true :: (_ ++ _)) ↔ _
      rw [hangs_cons, hangs_append, or_iff_right hnone, ih]
      exact Iff.rfl
    · rw [if_neg hn, if_neg hn]
      refine iff_of_false (fun h => Bool.noConfusion (hangs_singleton.mp h)) ?_
      rintro ⟨n, hn, _⟩
      exact List.not_mem_nil hn

theorem hangs_send {c : Setup} {f : SendFn} {net : Net}
    {body : Nat → Sender → Sender × List Event} (hbody : ∀ n s, ∀ e ∈ (body n s).2, e.OfBody)
    (hconn : ∀ n s, (body n s).1.connected = s.connected) (v : Vars) :
    Hangs st (send c f net body v).2 ↔ StallsSend st c f net := by
  have hsocket : ¬ Hangs st net.socketEvents := by
    refine not_hangs_of fun e he => ?_
    unfold Net.socketEvents at he
    split_ifs at he
    · rw [List.mem_singleton.mp he]
      rfl
    · exact absurd he List.not_mem_nil
  rw [send_eq_visit, hangs_append, or_iff_right hsocket]
  exact hangs_visit hbody hconn c.others _

theorem hangs_userSetConfig (c : Setup) (o : Outcomes) (v : Vars) :
    Hangs st (userSetConfig c o v).events ↔ StallsSend st c .msgSend o.msgNet := by
  unfold userSetConfig
  by_cases hl : c.serverLen > 1
  · rw [if_pos hl]
    exact hangs_send (fun _ _ => msgBody_ofBody) (fun _ _ => rfl) v
  · rw [if_neg hl]
    unfold StallsSend
    rw [others_eq_nil hl]
    exact iff_of_false hangs_nil fun ⟨_, hn, _⟩ => List.not_mem_nil hn

/-! ## The handlers -/

theorem hangs_printFile {c : Setup} {d : Desc} {opens : Bool} {msg : Bytes} {put : Bytes → Vars}
    {v : Vars} : ¬ Hangs st (printFile c d opens msg put v).events := by
  have hkeeps : (printFile c d opens msg put v).Keeps (fun _ => True) fun e => st.stops e = false :=
    printFile_keeps trivial (fun _ => trivial) rfl rfl
  exact not_hangs_of hkeeps.2

theorem hangs_mountHandler (c : Setup) (o : Outcomes) (myobj : Option Json) (v : Vars) :
    Hangs st (mountHandler c o myobj v).events ↔
      ¬ o.mount < 0 ∧ PrintsMount c o c.myNode.ip ∧ StallsSend st c .mountMsgSend o.mountNet := by
  have hmounted : ¬ Hangs st (mountedEvents c o myobj) := by
    unfold mountedEvents
    rw [hangs_append, hangs_singleton]
    rintro (h | h)
    · split_ifs at h
      · exact Bool.noConfusion (hangs_singleton.mp h)
      · exact hangs_nil h
    · exact Bool.noConfusion h
  by_cases hm : o.mount < 0
  · rw [mountHandler_fails hm]
    exact iff_of_false hmounted fun h => h.1 hm
  · have hsend : ∀ w, Hangs st (mountMsgSend c o.mountNet (mountCmd c.myNode.ip) w).2 ↔
        StallsSend st c .mountMsgSend o.mountNet :=
      hangs_send (fun _ _ => mountBody_ofBody) fun _ _ => rfl
    have hprint : ¬ Hangs st (printMountFile c o c.myNode.ip v).events := hangs_printFile
    rw [mountHandler_eq hm, and_iff_right hm, hangs_andThen, Done.ok_andThen, hangs_append,
      or_iff_right hmounted, or_iff_right hprint]
    exact and_congr printMountFile_go_iff (hsend _)

/-- `nbd-server` is started: `nbd_config` can be written at the first own entry. -/
def StartsServer (c : Setup) (o : Outcomes) : List DmbdConfigRemote → Nat → Prop
  | [], _ => False
  | r :: rs, n =>
    if ipOf (r :: rs) = c.myNode.ip then Prints c (o.nbdFopen n) (nbdConfigMsg (r :: rs))
    else StartsServer c o rs (n + 1)

theorem hangs_startNbdServers (c : Setup) (o : Outcomes) :
    ∀ (rs : List DmbdConfigRemote) (n : Nat) (v : Vars),
      Hangs st (startNbdServers c o rs n v).events ↔
        st.launch .nbdServer = true ∧ StartsServer c o rs n
  | [], _, _ => iff_of_false hangs_nil And.right
  | r :: rs, n, v => by
    unfold startNbdServers StartsServer
    by_cases hip : ipOf (r :: rs) = c.myNode.ip
    · have hprint : ¬ Hangs st (printNbdConfig c o (r :: rs) n v).events := hangs_printFile
      have hgo : (printNbdConfig c o (r :: rs) n v).exit = .go ↔
          Prints c (o.nbdFopen n) (nbdConfigMsg (r :: rs)) := printFile_go_iff
      rw [if_pos hip, if_pos hip, hangs_andThen, or_iff_right hprint, hgo, Done.ok_andThen,
        hangs_append, hangs_singleton, hangs_startNbdServers c o rs (n + 1), and_comm]
      -- a later entry starts the server at the same site
      exact and_congr_left fun _ => or_iff_left_of_imp And.left
    · rw [if_neg hip, if_neg hip]
      exact hangs_startNbdServers c o rs (n + 1) v

/-- What the configuration handler gets to: `insmod`, `nbd-server`, its answer. -/
def StallsLoad (st : Stalls) (c : Setup) (o : Outcomes) (remote : List DmbdConfigRemote) : Prop :=
  st.launch .configInsmod = true ∨ o.configInsmod = 0 ∧
    (st.launch .nbdServer = true ∧ StartsServer c o remote 0 ∨
      st.reply = true ∧ PrintsOwn c o remote 0)

theorem hangs_loadConfig (c : Setup) (o : Outcomes) (i : Int) (remote : List DmbdConfigRemote)
    (v : Vars) : Hangs st (loadConfig c o i remote v).events ↔ StallsLoad st c o remote := by
  unfold StallsLoad
  by_cases hi : o.configInsmod = 0
  · have hgo : (loaded c o remote v).exit = .go ↔ PrintsOwn c o remote 0 :=
      startNbdServers_go c o remote 0 (commanded c remote v)
    rw [loadConfig_zero hi, hangs_andThen, hgo, loaded_events, hangs_append, hangs_singleton,
      hangs_startNbdServers, and_iff_right hi, or_assoc, and_comm (a := PrintsOwn _ _ _ _)]
    exact or_congr_right (or_congr_right (and_congr_left fun _ => hangs_singleton))
  · rw [loadConfig_nonzero hi, hangs_singleton]
    exact (or_iff_left fun h => hi h.1).symm

/-- The configuration handler gets to a call that does not come back. -/
def StallsConfig (st : Stalls) (c : Setup) (o : Outcomes) (v : Vars) : Prop :=
  v.successFlag ≠ 1 ∧ ∃ remote,
    readDMBDRemote c.json (fileRead o v).dmbdConfig = some remote ∧ StallsLoad st c o remote

theorem hangs_setConfig (c : Setup) (o : Outcomes) (i : Int) (v : Vars) :
    Hangs st (setConfig c o i v).events ↔ StallsConfig st c o v := by
  unfold StallsConfig
  by_cases hs : v.successFlag = 1
  · have hstop : setConfig c o i v = ⟨v, [], .cont⟩ := if_pos hs
    rw [hstop]
    exact iff_of_false hangs_nil fun h => h.1 hs
  · obtain ⟨es, hes, heq⟩ := setConfig_stored (c := c) (o := o) hs i
    have hnone : ¬ Hangs st es := not_hangs_of fun e he => by rw [hes e he]; rfl
    rw [heq, Done.ok_andThen, hangs_append, or_iff_right hnone, and_iff_right hs]
    unfold withRemote
    cases readDMBDRemote c.json (fileRead o v).dmbdConfig with
    | none => exact iff_of_false hangs_nil fun ⟨_, h, _⟩ => by cases h
    | some remote => simp only [hangs_loadConfig, Option.some.injEq, exists_eq_left']

/-- The handler of a message gets to a call that does not come back. -/
def StallsHandler (st : Stalls) (c : Setup) (o : Outcomes) (v : Vars) : Prop :=
  match commandOf c (cstr v.buffer) with
  | .setConfig => StallsConfig st c o v
  | .userSetConfig => StallsSend st c .msgSend o.msgNet
  | .controllerSetConfig => st.reply = true
  | .mount =>
    ¬ o.mount < 0 ∧ PrintsMount c o c.myNode.ip ∧ StallsSend st c .mountMsgSend o.mountNet
  | .nbdSetOn => st.reply = true ∧ Readable c v
  | .mountSetOn | .unknown => False

theorem hangs_handler (c : Setup) (o : Outcomes) (i : Int) (v : Vars) :
    Hangs st (handler c o i (cstr v.buffer) v).events ↔ StallsHandler st c o v := by
  unfold handler StallsHandler
  cases commandOf c (cstr v.buffer) with
  | setConfig => exact hangs_setConfig c o i v
  | userSetConfig => exact hangs_userSetConfig c o v
  | controllerSetConfig => exact hangs_singleton
  | mount => exact hangs_mountHandler c o _ v
  | mountSetOn => exact iff_of_false hangs_printFile id
  | nbdSetOn =>
    show Hangs st (nbdSetOn c i v).events ↔ _
    by_cases hr : Readable c v
    · rw [nbdSetOn_readable hr]
      exact hangs_singleton.trans (and_iff_left hr).symm
    · rw [nbdSetOn_unreadable hr]
      exact iff_of_false hangs_nil fun h => hr h.2
  | unknown => exact iff_of_false hangs_nil id

/-! ## The gates -/

/-- What the activation gets to: `insmod` at an own entry, `nbd-client` at another one, the module
of the disk, and the servers it asks for their acknowledgement. -/
def StallsActivation (st : Stalls) (c : Setup) (o : Outcomes) (v : Vars)
    (remote : List DmbdConfigRemote) : Prop :=
  (st.launch .goInsmod = true ∧ ∃ k < remote.length, ipOf (remote.drop k) = c.myNode.ip) ∨
    (st.launch .nbdClient = true ∧ ∃ k < remote.length, ipOf (remote.drop k) ≠ c.myNode.ip) ∨
    st.launch .vrdInsmod = true ∨
    (o.vrdInsmod = 0 ∧ v.count ≠ 0) ∧ StallsSend st c .nbdMsgSend o.nbdNet

/-- There is such an entry in a list, from its parts. -/
theorem exists_drop_cons {P : List DmbdConfigRemote → Prop} {r : DmbdConfigRemote}
    {rs : List DmbdConfigRemote} :
    (∃ k < (r :: rs).length, P ((r :: rs).drop k)) ↔
      P (r :: rs) ∨ ∃ k < rs.length, P (rs.drop k) := by
  constructor
  · rintro ⟨k, hk, h⟩
    cases k with
    | zero => exact Or.inl h
    | succ k => exact Or.inr ⟨k, Nat.lt_of_succ_lt_succ hk, h⟩
  · rintro (h | ⟨k, hk, h⟩)
    · exact ⟨0, Nat.succ_pos _, h⟩
    · exact ⟨k + 1, Nat.succ_lt_succ hk, h⟩

theorem hangs_activate (c : Setup) (o : Outcomes) :
    ∀ (rs : List DmbdConfigRemote) (n : Nat) (v : Vars),
      Hangs st (activate c o rs n v).2 ↔
        (st.launch .goInsmod = true ∧ ∃ k < rs.length, ipOf (rs.drop k) = c.myNode.ip) ∨
          st.launch .nbdClient = true ∧ ∃ k < rs.length, ipOf (rs.drop k) ≠ c.myNode.ip
  | [], _, _ => iff_of_false hangs_nil fun h =>
      h.elim (fun ⟨_, k, hk, _⟩ => Nat.not_lt_zero k hk) fun ⟨_, k, hk, _⟩ => Nat.not_lt_zero k hk
  | r :: rs, n, v => by
    rw [exists_drop_cons (P := fun l => ipOf l = c.myNode.ip),
      exists_drop_cons (P := fun l => ipOf l ≠ c.myNode.ip)]
    unfold activate
    by_cases hip : ipOf (r :: rs) = c.myNode.ip
    · rw [if_pos hip, hangs_cons, hangs_activate c o rs (n + 1)]
      simp only [Stalls.stops, hip, true_or, and_true, ne_eq, not_true_eq_false, false_or]
      rw [← or_assoc]
      exact or_congr_left (or_iff_left_of_imp And.left)
    · rw [if_neg hip, hangs_cons, hangs_activate c o rs (n + 1)]
      simp only [Stalls.stops, hip, false_or, ne_eq, not_false_eq_true, true_or, and_true]
      rw [or_left_comm]
      exact or_congr_right (or_iff_left_of_imp And.left)

theorem hangs_loadDisk (c : Setup) (o : Outcomes) (v : Vars) :
    Hangs st (loadDisk c o v).2 ↔ st.launch .vrdInsmod = true ∨
      (o.vrdInsmod = 0 ∧ v.count ≠ 0) ∧ StallsSend st c .nbdMsgSend o.nbdNet := by
  unfold loadDisk
  by_cases hd : o.vrdInsmod = 0 ∧ v.count ≠ 0
  · rw [if_pos hd, hangs_append, hangs_singleton, and_iff_right hd]
    exact or_congr_right (hangs_send (fun _ _ => nbdBody_ofBody) (fun _ _ => rfl) v)
  · rw [if_neg hd, hangs_singleton]
    exact (or_iff_left fun h => hd h.1).symm

theorem hangs_countGate (c : Setup) (o : Outcomes) (v : Vars) :
    Hangs st (countGate c o v).events ↔ v.count = c.serverLen - 1 ∧ ∃ remote,
      readDMBDRemote c.json v.dmbdConfig = some remote ∧ StallsActivation st c o v remote := by
  by_cases hc : v.count = c.serverLen - 1
  · unfold countGate withRemote
    rw [if_pos hc, and_iff_right hc]
    cases readDMBDRemote c.json v.dmbdConfig with
    | none => exact iff_of_false hangs_nil fun ⟨_, h, _⟩ => by cases h
    | some remote =>
      obtain ⟨cmd, ha⟩ := (activate_keeps c o remote 0 v).1
      have hcount : (activate c o remote 0 v).1.count = v.count := by rw [ha]
      simp only [Option.some.injEq, exists_eq_left']
      show Hangs st (_ ++ _) ↔ _
      rw [hangs_append, hangs_activate, hangs_loadDisk, hcount, or_assoc]
      exact Iff.rfl
  · rw [countGate_ne hc]
    exact iff_of_false hangs_nil fun h => hc h.1

/-- The verdicts among events tell which of them is not got rid of. -/
theorem hangs_verdicts {es : List Event} (h : ∀ e ∈ es, e.IsVerdict) :
    Hangs st es ↔ ∃ text ∈ verdicts es, st.verdict text = true := by
  constructor
  · rintro ⟨e, he, hs⟩
    obtain ⟨fd, text, rfl⟩ := h e he
    exact ⟨text, List.mem_filterMap.mpr ⟨_, he, rfl⟩, hs⟩
  · rintro ⟨text, ht, hs⟩
    obtain ⟨e, he, heq⟩ := List.mem_filterMap.mp ht
    obtain ⟨fd, text', rfl⟩ := h e he
    cases heq
    exact ⟨_, he, hs⟩

/-- The gates get to a call that does not come back. -/
def StallsGates (st : Stalls) (c : Setup) (o : Outcomes) (v : Vars) : Prop :=
  (v.count = c.serverLen - 1 ∧ ∃ remote,
      readDMBDRemote c.json v.dmbdConfig = some remote ∧ StallsActivation st c o v remote) ∨
    (Asks c o v → Readable c v) ∧
      (Loaded c o v ∧ st.success = true ∨ v.unsuccessFlag = 1 ∧ st.unsuccess = true)

theorem gateVerdicts_stops (c : Setup) (o : Outcomes) (v : Vars) :
    (∃ text ∈ gateVerdicts c o v, st.verdict text = true) ↔
      Loaded c o v ∧ st.success = true ∨ v.unsuccessFlag = 1 ∧ st.unsuccess = true := by
  have hsuccess : st.verdict (ascii "success") = st.success := if_pos rfl
  have hunsuccess : st.verdict (ascii "unsuccess" ++ [0]) = st.unsuccess := if_neg (by decide)
  unfold gateVerdicts
  simp only [List.mem_append, or_and_right, exists_or]
  refine or_congr ?_ ?_
  · by_cases hl : Loaded c o v
    · simp [hl, hsuccess]
    · simp [hl]
  · by_cases hu : v.unsuccessFlag = 1
    · simp [hu, hunsuccess]
    · simp [hu]

theorem hangs_gates (c : Setup) (o : Outcomes) (v : Vars) :
    Hangs st (gates c o v).events ↔ StallsGates st c o v := by
  have hassoc : gates c o v =
      (countGate c o v).andThen fun w => (nbdGate c w).andThen unsuccessGate :=
    Done.andThen_assoc _ _ _
  have hall : ∀ w, ∀ e ∈ ((nbdGate c w).andThen unsuccessGate).events, e.IsVerdict := by
    intro w e he
    rcases Done.mem_andThen.mp he with he | ⟨_, he⟩
    · exact ⟨_, _, mem_nbdGate he⟩
    · exact ⟨_, _, mem_unsuccessGate he⟩
  have hwritten := gates_verdicts c o v
  rw [hassoc] at hwritten ⊢
  unfold StallsGates
  rw [hangs_andThen, hangs_countGate, ← gateVerdicts_stops]
  refine or_congr_right ?_
  by_cases hr : v.count = c.serverLen - 1 → Readable c v
  · have hgo := (countGate_spec (o := o) hr).1
    rw [and_iff_right hgo, hangs_verdicts (hall _)]
    rw [Done.andThen_go hgo, verdicts_append, verdicts_countGate, List.nil_append] at hwritten
    rw [hwritten]
    by_cases ha : Asks c o v → Readable c v
    · rw [if_pos ha, and_iff_right ha]
    · rw [if_neg ha]
      exact iff_of_false (fun ⟨_, h, _⟩ => List.not_mem_nil h) fun h => ha h.1
  · obtain ⟨hcount, hno⟩ := Classical.not_imp.mp hr
    rw [countGate_unreadable hcount hno]
    exact iff_of_false (fun h => Exit.noConfusion h.1) fun h => hno (h.1 (Or.inl hcount))

/-! ## One message -/

/-- The state that the gates find after the handler, as far as they look at it. -/
def beforeGates (c : Setup) (o : Outcomes) (v : Vars) : Vars :=
  { (if commandOf c (cstr v.buffer) = .userSetConfig then answered c o v else v) with
    dmbdConfig := fileAfter c o v (cstr v.buffer) }

/-- The handling of the message in `buffer` gets to a call that does not come back. -/
def StallsMessage (st : Stalls) (c : Setup) (o : Outcomes) (v : Vars) : Prop :=
  StallsHandler st c o v ∨ ReachesGates c o v ∧ StallsGates st c o (beforeGates c o v)

theorem stallsGates_congr {c : Setup} {o : Outcomes} {v w : Vars} (h : SameRound v w)
    (hfile : w.dmbdConfig = v.dmbdConfig) : StallsGates st c o w ↔ StallsGates st c o v := by
  obtain ⟨hl, ha, _⟩ := h.gates (c := c) o
  unfold StallsGates StallsActivation Readable
  rw [hl, ha, hfile, h.count, h.unsuccessFlag]

/-- **When the handling of a message gets to a call that does not come back.** -/
theorem handle_hangs_iff (c : Setup) (o : Outcomes) (i : Int) (v : Vars) :
    Hangs st (handle c o i v).events ↔ StallsMessage st c o v := by
  have hfile := handler_file c o i (cstr v.buffer) v rfl
  have hgates : ∀ w, SameRound (beforeGates c o v) w →
      w.dmbdConfig = fileAfter c o v (cstr v.buffer) →
      (Hangs st (gates c o w).events ↔ StallsGates st c o (beforeGates c o v)) :=
    fun w hw hf => (hangs_gates c o w).trans (stallsGates_congr hw hf)
  unfold handle StallsMessage
  rw [hangs_andThen, hangs_handler]
  refine or_congr_right ?_
  by_cases hc : commandOf c (cstr v.buffer) = .userSetConfig
  · have hreaches : ReachesGates c o v := by
      unfold ReachesGates
      rw [hc]
      trivial
    have huser : handler c o i (cstr v.buffer) v = userSetConfig c o v := by
      unfold handler
      rw [hc]
    rw [hgates _ ?_ hfile, and_iff_right hreaches, huser]
    · exact and_iff_right (userSetConfig_spec c o v).1
    · rw [huser, userSetConfig_state]
      unfold beforeGates
      rw [if_pos hc]
      exact ⟨rfl, rfl, rfl, rfl⟩
  · rw [(handler_go hc).1, hgates _ ?_ hfile]
    obtain ⟨h₁, h₂, h₃, h₄⟩ := (handler_still (o := o) (i := i) (v := v) hc).1
    unfold beforeGates
    rw [if_neg hc]
    exact ⟨h₁, h₂, h₃, h₄⟩

/-! ## One ready descriptor -/

/-- A call in what is done there does not come back. -/
def StallsAt (st : Stalls) (c : Setup) (v : Vars) : Input → Prop
  | .accept _ => False
  | .read _ r o => r ≠ some [] ∧ StallsMessage st c o (afterRead v r)

/-- The message that is handled there ends the process. -/
def CrashesAt (c : Setup) (v : Vars) : Input → Prop
  | .accept _ => False
  | .read _ r o => r ≠ some [] ∧ Crashes c o (afterRead v r)

/-- **The loop ends there**: at a message that ends the process, or at a call that does not come
back. -/
def EndsAt (st : Stalls) (c : Setup) (v : Vars) (inp : Input) : Prop :=
  CrashesAt c v inp ∨ StallsAt st c v inp

theorem serve_failed {c : Setup} {v : Vars} {fd : Int} (h : fd < 0) :
    serve c v (.accept fd) = ({ v with clientSock := fd }, []) := if_pos h

theorem serve_accepted {c : Setup} {v : Vars} {fd : Int} (h : ¬ fd < 0) :
    serve c v (.accept fd) =
      ({ v with clientSock := fd, fsStatus := insert fd v.fsStatus, maxfd := max v.maxfd fd },
        [.opened (.conn fd)]) := if_neg h

theorem serve_closed {c : Setup} {v : Vars} {i : Int} {r : Option Bytes} {o : Outcomes}
    (h : r = some []) :
    serve c v (.read i r o) =
      ({ afterRead v r with fsStatus := v.fsStatus.erase i }, [.closed (.conn i)]) := if_pos h

theorem serve_message {c : Setup} {v : Vars} {i : Int} {r : Option Bytes} {o : Outcomes}
    (h : r ≠ some []) :
    serve c v (.read i r o) =
      ({ (handle c o i (afterRead v r)).state with
          running := decide ((handle c o i (afterRead v r)).exit ≠ .crash) },
        .message i (cstr (afterRead v r).buffer) :: (handle c o i (afterRead v r)).events) :=
  if_neg h

theorem hangs_serve (c : Setup) (v : Vars) (inp : Input) :
    Hangs st (serve c v inp).2 ↔ StallsAt st c v inp := by
  cases inp with
  | accept fd =>
    refine iff_of_false (fun h => ?_) id
    by_cases hfd : fd < 0
    · rw [serve_failed hfd] at h
      exact hangs_nil h
    · rw [serve_accepted hfd] at h
      exact Bool.noConfusion (hangs_singleton.mp h)
  | read i r o =>
    by_cases hr : r = some []
    · rw [serve_closed hr]
      exact iff_of_false (fun h => Bool.noConfusion (hangs_singleton.mp h)) fun h => h.1 hr
    · rw [serve_message hr, hangs_cons, handle_hangs_iff]
      exact (or_iff_right fun h : false = true => Bool.noConfusion h).trans
        (and_iff_right hr).symm

/-- A step without such a call. -/
theorem stallServe_comes_back {c : Setup} {v : Vars} {inp : Input} (h : ¬ StallsAt st c v inp) :
    stallServe st c v inp = serve c v inp := if_neg fun hs => h ((hangs_serve c v inp).mp hs)

/-- The numbers that the loop waits at are those of `serve`, and the events among its events. -/
theorem stallServe_spec (st : Stalls) (c : Setup) (v : Vars) (inp : Input) :
    (stallServe st c v inp).1.fsStatus = (serve c v inp).1.fsStatus ∧
      (stallServe st c v inp).1.maxfd = (serve c v inp).1.maxfd ∧
      ∀ e ∈ (stallServe st c v inp).2, e ∈ (serve c v inp).2 := by
  unfold stallServe
  by_cases hs : Hangs st (serve c v inp).2
  · simp only [if_pos hs]
    exact ⟨trivial, trivial, fun e he => (List.takeWhile_prefix _).subset he⟩
  · simp only [if_neg hs]
    exact ⟨trivial, trivial, fun e he => he⟩

theorem serve_crashes_iff {c : Setup} {v : Vars} (hrun : v.running = true) (inp : Input) :
    (serve c v inp).1.running = false ↔ CrashesAt c v inp := by
  cases inp with
  | accept fd =>
    refine iff_of_false (fun h => ?_) id
    by_cases hneg : fd < 0
    · rw [serve_failed hneg] at h
      exact Bool.noConfusion (hrun.symm.trans h)
    · rw [serve_accepted hneg] at h
      exact Bool.noConfusion (hrun.symm.trans h)
  | read i r o =>
    by_cases hr : r = some []
    · rw [serve_closed hr]
      exact iff_of_false (fun h => Bool.noConfusion (hrun.symm.trans h)) fun h => h.1 hr
    · rw [serve_message hr]
      show decide _ = false ↔ _ ∧ _
      rw [and_iff_right hr, decide_eq_false_iff_not, not_not]
      exact handle_crash_iff c o i (afterRead v r)

/-- **When the loop ends at a ready descriptor.** -/
theorem stallServe_ends_iff {c : Setup} {v : Vars} (hrun : v.running = true) (inp : Input) :
    (stallServe st c v inp).1.running = false ↔ EndsAt st c v inp := by
  by_cases hs : StallsAt st c v inp
  · have hstop : (stallServe st c v inp).1.running = false := by
      unfold stallServe
      simp only [if_pos ((hangs_serve c v inp).mpr hs)]
    exact iff_of_true hstop (Or.inr hs)
  · rw [stallServe_comes_back hs]
    exact (serve_crashes_iff hrun inp).trans (or_iff_left hs).symm

end Hangs

end JcmController.Controller
