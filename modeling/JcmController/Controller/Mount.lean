import Mathlib.Logic.Function.Basic
import JcmController.Controller.Verdicts

/-!
# The mount and its announcement

`mount` writes `mount_file` and announces the own ip to the other servers; `MOUNT_SET_ON` writes
the ip it is told. The other handlers touch neither.

* `handler_unmounted`, `gates_unmounted`: what has nothing to do with mounts.
* `handle_mounts`: a mount that goes through leaves the own ip in the file, and announces it.
* `handle_unmounted`: any other message but an announcement leaves the file and announces nothing.
* `handle_told`: an announcement leaves the ip it tells, if the handler comes to its end.
-/

namespace JcmController.Controller

open JcmController.Lib

/-! ## What is announced -/

/-- A write of `mount_msg_send`. -/
def Event.Announces (e : Event) : Prop := ∃ n text, e = .sent .mountMsgSend n text

/-- `mount_file` keeps its contents and nothing is announced. -/
def Unmounted (v : Vars) : Done Vars Event → Prop :=
  Done.Keeps (fun w => w.mountFile = v.mountFile) fun e => ¬ e.Announces

theorem unmounted_nil (v : Vars) (x : Exit) : Unmounted v ⟨v, [], x⟩ := .nil rfl x

theorem Unmounted.andThen {v : Vars} {r : Done Vars Event} {f : Vars → Done Vars Event}
    (hr : Unmounted v r) (hf : ∀ w, Unmounted w (f w)) : Unmounted v (r.andThen f) :=
  Done.Keeps.andThen hr fun h => ⟨(hf _).1.trans h, (hf _).2⟩

/-! ## The senders and the gates -/

theorem sent_of_mem_answerEvents {f g : SendFn} {m n : Nat} {r : Option Bytes} {text : Bytes} :
    .sent g n text ∉ answerEvents f m r := by
  cases r with
  | none => exact List.not_mem_nil
  | some bs => simp [answerEvents]

theorem not_announces_msgBody {net : Net} {buf : Bytes} {n : Nat} {s : Sender} :
    ∀ e ∈ (msgBody net buf n s).2, ¬ e.Announces := by
  rintro e he ⟨m, text, rfl⟩
  unfold msgBody at he
  rcases List.mem_append.mp he with he | he
  · rcases List.mem_append.mp he with he | he
    · rcases List.mem_cons.mp he with he | he
      · cases he
      · exact sent_of_mem_answerEvents he
    · unfold configExchange at he
      by_cases hf : cstr (readTerm 1024 s.buffer (net.peer n).first) = ascii "CONTROL_SET_ON"
      · rw [if_pos hf] at he
        cases hd : s.vars.dmbdConfig <;> simp [hd] at he
      · rw [if_neg hf] at he
        exact absurd he List.not_mem_nil
  · exact sent_of_mem_answerEvents he

theorem not_announces_nbdBody {net : Net} {buf : Bytes} {n : Nat} {s : Sender} :
    ∀ e ∈ (nbdBody net buf n s).2, ¬ e.Announces := by
  rintro e he ⟨m, text, rfl⟩
  unfold nbdBody at he
  rcases List.mem_cons.mp he with he | he
  · cases he
  · exact sent_of_mem_answerEvents he

/-- `msg_send` and `nbd_msg_send` have to do with rounds only. -/
theorem send_unmounted {c : Setup} {f : SendFn} {net : Net}
    {body : Nat → Sender → Sender × List Event}
    (hvars : ∀ n s, (body n s).1.vars.mountFile = s.vars.mountFile)
    (hbody : ∀ n s, ∀ e ∈ (body n s).2, ¬ e.Announces) (v : Vars) :
    (send c f net body v).1.vars.mountFile = v.mountFile ∧
      ∀ e ∈ (send c f net body v).2, ¬ e.Announces := by
  refine send_keeps (P := fun w => w.mountFile = v.mountFile)
    (fun n s hs => ⟨(hvars n s).trans hs, hbody n s⟩) ?_ ?_ rfl
  · rintro n ok ⟨m, text, h⟩
    cases h
  · rintro ⟨m, text, h⟩
    cases h

theorem msgSend_unmounted (c : Setup) (net : Net) (buf : Bytes) (v : Vars) :
    (msgSend c net buf v).1.vars.mountFile = v.mountFile ∧
      ∀ e ∈ (msgSend c net buf v).2, ¬ e.Announces := by
  refine send_unmounted (fun n s => ?_) (fun _ _ => not_announces_msgBody) v
  show (takeVerdict _ s.vars).mountFile = s.vars.mountFile
  unfold takeVerdict
  split_ifs <;> rfl

theorem nbdMsgSend_unmounted (c : Setup) (net : Net) (buf : Bytes) (v : Vars) :
    (nbdMsgSend c net buf v).1.vars.mountFile = v.mountFile ∧
      ∀ e ∈ (nbdMsgSend c net buf v).2, ¬ e.Announces := by
  refine send_unmounted (fun n s => ?_) (fun _ _ => not_announces_nbdBody) v
  show (takeLoad _ s.vars).mountFile = s.vars.mountFile
  unfold takeLoad
  split_ifs <;> rfl

theorem gates_unmounted (c : Setup) (o : Outcomes) (v : Vars) : Unmounted v (gates c o v) := by
  refine ⟨(gates_frame c o v).mountFile, fun e he => ?_⟩
  rcases mem_gates he with ⟨remote, he⟩ | rfl | ⟨w, he⟩ | ⟨fd, text, rfl⟩
  · obtain ⟨_, _, _, rfl⟩ := (activate_keeps c o remote 0 v).2 e he
    rintro ⟨_, _, h⟩
    cases h
  · rintro ⟨_, _, h⟩
    cases h
  · exact (nbdMsgSend_unmounted c o.nbdNet nbdClientMsg w).2 e he
  · rintro ⟨_, _, h⟩
    cases h

/-! ## The handlers -/

/-- The message is a mount that goes through. -/
def GoesThrough (c : Setup) (o : Outcomes) (text : Bytes) : Prop :=
  commandOf c text = .mount ∧ ¬ o.mount < 0 ∧ PrintsMount c o c.myNode.ip

instance (c : Setup) (o : Outcomes) (text : Bytes) : Decidable (GoesThrough c o text) :=
  inferInstanceAs (Decidable (_ ∧ _))

theorem startNbdServers_unmounted (c : Setup) (o : Outcomes) (rs : List DmbdConfigRemote) (n : Nat)
    (v : Vars) : Unmounted v (startNbdServers c o rs n v) := by
  refine startNbdServers_keeps (fun _ _ h => h) ?_ ?_ ?_ rs n v rfl
  · rintro ⟨m, text, h⟩
    cases h
  · rintro ⟨m, text, h⟩
    cases h
  · rintro _ ⟨m, text, h⟩
    cases h

theorem setConfig_unmounted (c : Setup) (o : Outcomes) (i : Int) (v : Vars) :
    Unmounted v (setConfig c o i v) := by
  unfold setConfig
  by_cases hs : v.successFlag = 1
  · rw [if_pos hs]
    exact unmounted_nil v _
  · rw [if_neg hs]
    refine Unmounted.andThen ?_ fun w => withRemote_keeps rfl fun remote => ?_
    · unfold writeConfig
      by_cases ho : o.configOpen = true
      · rw [if_pos ho]
        refine ⟨rfl, ?_⟩
        rintro e he ⟨m, text, rfl⟩
        simp [Done.ok] at he
      · rw [if_neg ho]
        exact unmounted_nil v _
    · have hlaunch : ∀ e ∈ [Event.launch .configInsmod (ownBestioCmd c remote w.bestioCmd)
          o.configInsmod], ¬ e.Announces := by
        rintro e he ⟨m, text, rfl⟩
        cases List.mem_singleton.mp he
      unfold loadConfig
      by_cases hi : o.configInsmod ≠ 0
      · simp only [if_pos hi]
        exact ⟨rfl, hlaunch⟩
      · simp only [if_neg hi]
        refine Unmounted.andThen (Unmounted.andThen ⟨rfl, hlaunch⟩
          (startNbdServers_unmounted c o remote 0)) fun u => ⟨rfl, ?_⟩
        rintro e he ⟨m, text, rfl⟩
        cases List.mem_singleton.mp he

theorem not_announces_mounted (c : Setup) (o : Outcomes) (myobj : Option Json) :
    ∀ e ∈ mountedEvents c o myobj, ¬ e.Announces := by
  rintro e he ⟨m, text, rfl⟩
  rcases List.mem_append.mp he with he | he
  · by_cases ha : o.access ≠ 0
    · rw [if_pos ha] at he
      cases List.mem_singleton.mp he
    · rw [if_neg ha] at he
      exact absurd he List.not_mem_nil
  · cases List.mem_singleton.mp he

/-- `mount_msg_send` writes its buffer. -/
theorem mountMsgSend_texts (c : Setup) (net : Net) (buf : Bytes) (v : Vars) :
    ∀ e ∈ (mountMsgSend c net buf v).2, ∀ n text, e = .sent .mountMsgSend n text → text = buf := by
  have hkeeps : True ∧ ∀ e ∈ (mountMsgSend c net buf v).2,
      ∀ n text, e = .sent .mountMsgSend n text → text = buf := by
    refine send_keeps (P := fun _ => True) (fun m s _ => ⟨trivial, ?_⟩)
      (fun _ _ _ _ h => by cases h) (fun _ _ h => by cases h) trivial
    rintro e he n text rfl
    cases List.mem_singleton.mp he
    rfl
  exact hkeeps.2

/-- A mount that goes through announces the own ip, and leaves it in the file. -/
theorem mountHandler_mounts {c : Setup} {o : Outcomes} (hm : ¬ o.mount < 0)
    (hp : PrintsMount c o c.myNode.ip) (myobj : Option Json) (v : Vars) :
    (mountHandler c o myobj v).exit = .go ∧
      (mountHandler c o myobj v).state.mountFile = fprintf c.junk (mountMsg c.myNode.ip) ∧
      ∀ n text, .sent .mountMsgSend n text ∈ (mountHandler c o myobj v).events →
        text = mountCmd c.myNode.ip := by
  rw [mountHandler_eq hm, Done.ok_andThen]
  rcases printMountFile_cases c o c.myNode.ip v with ⟨-, file, hfile, heq⟩ | ⟨hno, -⟩
  · rw [heq, Done.andThen_go rfl, hfile]
    simp only [mountMsgSend_vars]
    refine ⟨rfl, rfl, fun n text he => ?_⟩
    rcases List.mem_append.mp he with he | he
    · rcases List.mem_append.mp he with he | he
      · exact absurd ⟨n, text, rfl⟩ (not_announces_mounted c o _ _ he)
      · simp [Done.ok] at he
    · exact mountMsgSend_texts c o.mountNet (mountCmd c.myNode.ip) _ _ he n text rfl
  · exact absurd hp hno

/-- One that does not leaves the file and announces nothing, if the own ip is no format. -/
theorem mountHandler_unmounted {c : Setup} {o : Outcomes}
    (hplain : (fprintf c.junk (mountMsg c.myNode.ip)).isSome)
    (h : ¬ (¬ o.mount < 0 ∧ PrintsMount c o c.myNode.ip)) (myobj : Option Json) (v : Vars) :
    Unmounted v (mountHandler c o myobj v) := by
  by_cases hm : o.mount < 0
  · rw [mountHandler_fails hm]
    exact ⟨rfl, not_announces_mounted c o myobj⟩
  · have hopens : ¬ o.mountFopen = true := fun ho => h ⟨hm, ho, hplain⟩
    have hclosed : printMountFile c o c.myNode.ip v = ⟨v, [], .crash⟩ := if_neg hopens
    rw [mountHandler_eq hm, Done.ok_andThen, hclosed, Done.andThen_stop Exit.noConfusion]
    refine ⟨rfl, fun e he => not_announces_mounted c o myobj e ?_⟩
    rwa [List.append_nil] at he

/-- **Every other handler leaves the file and announces nothing.** -/
theorem handler_unmounted {c : Setup} {o : Outcomes} {i : Int} {text : Bytes} {v : Vars}
    (hplain : (fprintf c.junk (mountMsg c.myNode.ip)).isSome)
    (hset : commandOf c text ≠ .mountSetOn) (hm : ¬ GoesThrough c o text) :
    Unmounted v (handler c o i text v) := by
  unfold handler
  cases hc : commandOf c text with
  | setConfig => exact setConfig_unmounted c o i v
  | userSetConfig =>
    show Unmounted v (userSetConfig c o v)
    unfold userSetConfig
    by_cases hl : c.serverLen > 1
    · rw [if_pos hl]
      exact msgSend_unmounted c o.msgNet controllerCmd v
    · rw [if_neg hl]
      exact unmounted_nil v _
  | controllerSetConfig =>
    refine ⟨rfl, ?_⟩
    rintro e he ⟨m, text, rfl⟩
    cases List.mem_singleton.mp he
  | mount => exact mountHandler_unmounted hplain (fun h => hm ⟨hc, h⟩) _ v
  | mountSetOn => exact absurd hc hset
  | nbdSetOn =>
    refine withRemote_keeps rfl fun _ => ⟨rfl, ?_⟩
    rintro e he ⟨m, text, rfl⟩
    cases List.mem_singleton.mp he
  | unknown => exact unmounted_nil v _

/-! ## One message -/

/-- **A mount that goes through** leaves the own ip in the file and announces it. -/
theorem handle_mounts {c : Setup} {o : Outcomes} {i : Int} {v : Vars}
    (h : GoesThrough c o (cstr v.buffer)) :
    (handle c o i v).state.mountFile = fprintf c.junk (mountMsg c.myNode.ip) ∧
      ∀ n text, .sent .mountMsgSend n text ∈ (handle c o i v).events →
        text = mountCmd c.myNode.ip := by
  obtain ⟨hcmd, hm, hf⟩ := h
  obtain ⟨hgo, hfile, hsent⟩ := mountHandler_mounts (c := c) hm hf
    (c.json.tokenerParse (cstr v.buffer)) v
  have hhandler : handler c o i (cstr v.buffer) v =
      mountHandler c o (c.json.tokenerParse (cstr v.buffer)) v := by
    unfold handler
    rw [hcmd]
  unfold handle
  rw [hhandler, Done.andThen_go hgo]
  obtain ⟨hkept, hnone⟩ := gates_unmounted c o
    (mountHandler c o (c.json.tokenerParse (cstr v.buffer)) v).state
  refine ⟨hkept.trans hfile, fun n text he => ?_⟩
  rcases List.mem_append.mp he with he | he
  · exact hsent n text he
  · exact absurd ⟨n, text, rfl⟩ (hnone _ he)

/-- **Any other message but an announcement** leaves the file and announces nothing. -/
theorem handle_unmounted {c : Setup} {o : Outcomes} {i : Int} {v : Vars}
    (hplain : (fprintf c.junk (mountMsg c.myNode.ip)).isSome)
    (hset : commandOf c (cstr v.buffer) ≠ .mountSetOn) (hm : ¬ GoesThrough c o (cstr v.buffer)) :
    Unmounted v (handle c o i v) :=
  Unmounted.andThen (handler_unmounted hplain hset hm) (gates_unmounted c o)

/-- **An announcement** leaves the ip it tells in the file, or the file as it was where the process
ends, and nothing more is announced. -/
theorem handle_told {c : Setup} {o : Outcomes} {i : Int} {v : Vars} {ip : Bytes}
    (hplain : (fprintf c.junk (mountMsg ip)).isSome)
    (hset : commandOf c (cstr v.buffer) = .mountSetOn)
    (hip : dmbdMountIp c (c.json.tokenerParse (cstr v.buffer)) = some ip) :
    ((handle c o i v).state.mountFile = fprintf c.junk (mountMsg ip) ∨
        (handle c o i v).state.mountFile = v.mountFile ∧ (handle c o i v).exit = .crash) ∧
      ∀ e ∈ (handle c o i v).events, ¬ e.Announces := by
  unfold handle handler
  rw [hset]
  show _ ∧ ∀ e ∈ ((mountSetOn c o _ v).andThen (gates c o)).events, _
  unfold mountSetOn
  simp only [hip]
  rcases printMountFile_cases c o ip v with ⟨-, file, hfile, heq⟩ | ⟨hno, -⟩
  · obtain ⟨hkept, hnone⟩ := gates_unmounted c o { v with mountFile := some file }
    rw [heq, Done.ok_andThen, hfile]
    refine ⟨Or.inl hkept, ?_⟩
    rintro e he ⟨n, text, rfl⟩
    rcases List.mem_append.mp he with he | he
    · simp at he
    · exact hnone _ he ⟨n, text, rfl⟩
  · have hopens : ¬ o.mountFopen = true := fun ho => hno ⟨ho, hplain⟩
    have hclosed : printMountFile c o ip v = ⟨v, [], .crash⟩ := if_neg hopens
    rw [hclosed, Done.andThen_stop Exit.noConfusion]
    exact ⟨Or.inr ⟨rfl, rfl⟩, fun e he => absurd he List.not_mem_nil⟩

end JcmController.Controller
