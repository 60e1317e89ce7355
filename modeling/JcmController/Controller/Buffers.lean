import JcmController.Controller.Answers

/-!
# Reads and their buffers

The controller reads at five places: a client's message in `main`, in `msg_send` the first answer,
`dmbd_config` and the second answer, and the answer in `nbd_msg_send`. All but the last are followed
by `buffer[rtv] = 0`. `readsOf` lists the reads of a run, each with the buffer as it stood.

* `exact_iff`: when the store behind a read is inside the buffer, and the text there is what the
  read returned.
* `step_sized`: each read of a step is into a buffer of the size of its array.
* **`reads_exact_iff`**: the reads of a run are all exact when each of them returned fewer bytes
  than fit, and each answer to `nbd_msg_send` brought a NUL or found one behind it.
* `reads_outside`: a read that fails, one that fills the buffer, and one over an older answer.
-/

namespace JcmController.Controller

open JcmController.Lib

/-! ## One read -/

/-- The places. -/
inductive ReadSite where
  | message
  | first
  | index
  | second
  | load
  deriving DecidableEq, Repr

/-- `sizeof(buffer)`, which is how much is asked for. -/
def ReadSite.size : ReadSite → Nat
  | .message => 4096
  | .first => 1024
  | .index => 4096
  | .second => 1024
  | .load => 1024

/-- `buffer[rtv] = 0` follows. -/
def ReadSite.terminated : ReadSite → Bool
  | .load => false
  | _ => true

/-- One read: the buffer as it stood, and what `read` returned, `none` a failed call. -/
structure Read where
  site : ReadSite
  before : Bytes
  result : Option Bytes

namespace Read

/-- The bytes that were read. -/
def bytes (r : Read) : Bytes := (r.result.getD []).take r.site.size

/-- `rtv` -/
def rtv (r : Read) : Int :=
  match r.result with
  | none => -1
  | some _ => r.bytes.length

/-- The buffer afterwards. -/
def after (r : Read) : Bytes :=
  if r.site.terminated then readTerm r.site.size r.before r.result
  else readInto r.site.size r.before r.result

/-- The text parsed or compared, if it ends in the buffer. -/
def text (r : Read) : Option Bytes := stringIn r.after

/-- The terminator is inside the buffer. -/
def Inside (r : Read) : Prop :=
  r.site.terminated = true → 0 ≤ r.rtv ∧ r.rtv < r.before.length

/-- The terminator is inside the buffer, and the text is the string that was read. -/
structure Exact (r : Read) : Prop where
  inside : r.Inside
  text : r.text = some (cstr r.bytes)

/-- The buffer is the array. -/
def Sized (r : Read) : Prop := r.before.length = r.site.size

/-- The read returned fewer bytes than fit; without a terminator, its bytes have a NUL in them or
one right behind them. -/
def Fits (r : Read) : Prop :=
  if r.site.terminated then r.result.isSome = true ∧ r.bytes.length < r.site.size
  else 0 ∈ r.bytes ∨ r.before[r.bytes.length]? = some 0

instance (r : Read) : Decidable r.Fits :=
  inferInstanceAs (Decidable (if r.site.terminated then
    r.result.isSome = true ∧ r.bytes.length < r.site.size
    else 0 ∈ r.bytes ∨ r.before[r.bytes.length]? = some 0))

theorem rtv_none {r : Read} (h : r.result = none) : r.rtv = -1 := by
  unfold rtv
  rw [h]

theorem rtv_some {r : Read} {bs : Bytes} (h : r.result = some bs) : r.rtv = r.bytes.length := by
  unfold rtv
  rw [h]

theorem bytes_some {r : Read} {bs : Bytes} (h : r.result = some bs) :
    r.bytes = bs.take r.site.size := by
  rw [bytes, h, Option.getD_some]

theorem inside_iff {r : Read} (hsize : r.Sized) (ht : r.site.terminated = true) :
    r.Inside ↔ r.result.isSome = true ∧ r.bytes.length < r.site.size := by
  unfold Inside
  rw [hsize]
  cases hr : r.result with
  | none =>
    rw [rtv_none hr]
    refine iff_of_false (fun h => absurd (h ht).1 (by decide)) fun h => ?_
    cases h.1
  | some bs =>
    rw [rtv_some hr]
    constructor
    · exact fun h => ⟨rfl, Int.ofNat_lt.mp (h ht).2⟩
    · exact fun h _ => ⟨Int.natCast_nonneg _, Int.ofNat_lt.mpr h.2⟩

/-- Behind a terminator inside the buffer, the text is what was read. -/
theorem text_of_inside {r : Read} (hsize : r.Sized) (ht : r.site.terminated = true)
    (hin : r.Inside) : r.text = some (cstr r.bytes) := by
  obtain ⟨hsome, hlt⟩ := (inside_iff hsize ht).mp hin
  obtain ⟨bs, hr⟩ := Option.isSome_iff_exists.mp hsome
  have hafter : r.after = readTerm r.site.size r.before (some bs) := by
    rw [after, if_pos ht, hr]
  have hbytes := bytes_some hr
  have hmem : 0 ∈ r.after := by
    rw [hafter, readTerm]
    refine List.mem_set ?_ 0
    rw [← hbytes, overlay, List.length_append]
    have : (r.before.drop r.bytes.length).length = r.site.size - r.bytes.length := by
      rw [List.length_drop, hsize]
    omega
  rw [text, stringIn, if_pos hmem, hafter, cstr_readTerm_some, hbytes]

/-- Without a terminator, what stood behind the bytes decides. -/
theorem stringIn_overlay {before bytes : Bytes} :
    stringIn (overlay before bytes) = some (cstr bytes) ↔
      0 ∈ bytes ∨ before[bytes.length]? = some 0 := by
  unfold overlay
  by_cases hb : 0 ∈ bytes
  · exact iff_of_true (stringIn_of_zero_mem hb _) (Or.inl hb)
  · have hfree := not_zero_mem_iff.mp hb
    have hhead : before[bytes.length]? = (before.drop bytes.length)[0]? := by
      rw [List.getElem?_drop, Nat.add_zero]
    rw [or_iff_right hb, hhead, stringIn_append hfree, cstr_eq_self hfree]
    cases before.drop bytes.length with
    | nil => simp [stringIn]
    | cons b rest =>
      by_cases hb0 : b = 0
      · simp [stringIn, cstr, hb0]
      · by_cases hmem : 0 ∈ rest
        · simp [stringIn, cstr, hb0, hmem]
        · simp [stringIn, hb0, Ne.symm hb0, hmem]

/-- **A read is exact** if it fits. -/
theorem exact_iff {r : Read} (hsize : r.Sized) : r.Exact ↔ r.Fits := by
  unfold Fits
  by_cases ht : r.site.terminated = true
  · rw [if_pos ht, ← inside_iff hsize ht]
    exact ⟨Exact.inside, fun hin => ⟨hin, text_of_inside hsize ht hin⟩⟩
  · have hafter : r.after = overlay r.before r.bytes := by
      cases hr : r.result with
      | none =>
        rw [after, if_neg ht, hr, bytes, hr, Option.getD_none, List.take_nil]
        rfl
      | some bs =>
        rw [after, if_neg ht, hr, bytes_some hr]
        rfl
    rw [if_neg ht, ← stringIn_overlay, ← hafter]
    exact ⟨Exact.text, fun h => ⟨fun h' => absurd h' ht, h⟩⟩

/-- The text is every byte that was read if it fits and none of them is NUL. -/
theorem letter_iff {r : Read} (hsize : r.Sized) :
    (r.Inside ∧ r.text = some r.bytes) ↔ r.Fits ∧ NulFree r.bytes := by
  rw [← exact_iff hsize]
  constructor
  · rintro ⟨hin, htext⟩
    have hfree : NulFree r.bytes := nulFree_of_stringIn htext
    exact ⟨⟨hin, by rw [htext, cstr_eq_self hfree]⟩, hfree⟩
  · rintro ⟨hexact, hfree⟩
    exact ⟨hexact.inside, by rw [hexact.text, cstr_eq_self hfree]⟩

end Read

/-! ## The reads of a run -/

/-- The reads in the loop body of `msg_send`. -/
def msgReads (net : Net) (n : Nat) (s : Sender) : List Read :=
  let p := net.peer n
  let first := readTerm 1024 s.buffer p.first
  ⟨.first, s.buffer, p.first⟩ ::
    ((if cstr first = ascii "CONTROL_SET_ON" then
        [⟨.index, net.index n, indexFile net n s.vars.dmbdConfig⟩]
      else []) ++ [⟨.second, first, p.second⟩])

/-- The read in the loop body of `nbd_msg_send`. -/
def nbdReads (net : Net) (n : Nat) (s : Sender) : List Read :=
  [⟨.load, s.buffer, (net.peer n).first⟩]

/-- The reads of a sender's loop. -/
def sendLoopReads (c : Setup) (net : Net) (body : Nat → Sender → Sender × List Event)
    (reads : Nat → Sender → List Read) : List ServerNode → Nat → Sender → List Read
  | [], _, _ => []
  | node :: nodes, n, s =>
    if node.ip = c.myNode.ip then sendLoopReads c net body reads nodes (n + 1) s
    else if net.connects n s.connected then
      reads n { s with connected := true } ++
        sendLoopReads c net body reads nodes (n + 1) (body n { s with connected := true }).1
    else []

/-- The reads of a sender. -/
def sendReads (c : Setup) (net : Net) (body : Nat → Sender → Sender × List Event)
    (reads : Nat → Sender → List Read) (v : Vars) : List Read :=
  sendLoopReads c net body reads c.serverConfig 0 ⟨v, false, net.stack, 0⟩

/-- The reads of a handler: those of `msg_send`. -/
def handlerReads (c : Setup) (o : Outcomes) (text : Bytes) (v : Vars) : List Read :=
  match commandOf c text with
  | .userSetConfig =>
    if c.serverLen > 1 then
      sendReads c o.msgNet (msgBody o.msgNet controllerCmd) (msgReads o.msgNet) v
    else []
  | _ => []

/-- The reads behind the handler: those of `nbd_msg_send`. -/
def gateReads (c : Setup) (o : Outcomes) (v : Vars) : List Read :=
  if v.count = c.serverLen - 1 then
    match readDMBDRemote c.json v.dmbdConfig with
    | none => []
    | some remote =>
      let a := activate c o remote 0 v
      if o.vrdInsmod = 0 ∧ a.1.count ≠ 0 then
        sendReads c o.nbdNet (nbdBody o.nbdNet nbdClientMsg) (nbdReads o.nbdNet) a.1
      else []
  else []

/-- The reads while the message in `buffer` is handled. -/
def handleReads (c : Setup) (o : Outcomes) (i : Int) (v : Vars) : List Read :=
  handlerReads c o (cstr v.buffer) v ++
    if (handler c o i (cstr v.buffer) v).exit = .go then
      gateReads c o (handler c o i (cstr v.buffer) v).state
    else []

/-- The reads at one ready descriptor. -/
def serveReads (c : Setup) (v : Vars) : Input → List Read
  | .accept _ => []
  | .read i r o =>
    ⟨.message, v.buffer, r⟩ ::
      if r = some [] then []
      else handleReads c o i { v with buffer := readTerm 4096 v.buffer r }

/-- The reads of one step of the loop. -/
def stepReads (c : Setup) (v : Vars) (inp : Input) : List Read :=
  if v.running then serveReads c v inp else []

/-- The reads of a run. -/
def readsOf (c : Setup) (v : Vars) (inputs : List Input) : List Read :=
  (trace (step c) v inputs).flatMap fun t => stepReads c t.before t.input

/-! ## Buffers of the arrays' sizes -/

/-- The arrays on the stacks of the senders. -/
structure Outcomes.Sized (o : Outcomes) : Prop where
  msgStack : o.msgNet.stack.length = 1024
  index : ∀ n, (o.msgNet.index n).length = 4096
  nbdStack : o.nbdNet.stack.length = 1024

/-- What comes in meets arrays of these sizes. -/
def Input.Sized : Input → Prop
  | .accept _ => True
  | .read _ _ o => o.Sized

theorem overlay_length {buf bs : Bytes} (h : bs.length ≤ buf.length) :
    (overlay buf bs).length = buf.length := by
  rw [overlay, List.length_append, List.length_drop]
  omega

theorem readTerm_length {cap : Nat} {buf : Bytes} (h : buf.length = cap) (r : Option Bytes) :
    (readTerm cap buf r).length = cap := by
  cases r with
  | none => exact h
  | some bs =>
    rw [readTerm, List.length_set, overlay_length (by rw [List.length_take]; omega), h]

theorem readInto_length {cap : Nat} {buf : Bytes} (h : buf.length = cap) (r : Option Bytes) :
    (readInto cap buf r).length = cap := by
  cases r with
  | none => exact h
  | some bs => rw [readInto, overlay_length (by rw [List.length_take]; omega), h]

/-- A body that keeps the size of its buffer. -/
theorem sendLoopReads_sized {c : Setup} {net : Net} {body : Nat → Sender → Sender × List Event}
    {reads : Nat → Sender → List Read}
    (hbody : ∀ n s, s.buffer.length = 1024 → (body n s).1.buffer.length = 1024)
    (hreads : ∀ n s, s.buffer.length = 1024 → ∀ r ∈ reads n s, r.Sized) :
    ∀ (nodes : List ServerNode) (n : Nat) (s : Sender), s.buffer.length = 1024 →
      ∀ r ∈ sendLoopReads c net body reads nodes n s, r.Sized
  | [], _, _, _, _, hr => absurd hr List.not_mem_nil
  | node :: nodes, n, s, hs, r, hr => by
    rw [sendLoopReads] at hr
    by_cases hme : node.ip = c.myNode.ip
    · rw [if_pos hme] at hr
      exact sendLoopReads_sized hbody hreads nodes (n + 1) s hs r hr
    · rw [if_neg hme] at hr
      by_cases hconn : net.connects n s.connected = true
      · rw [if_pos hconn] at hr
        rcases List.mem_append.mp hr with hr | hr
        · exact hreads n { s with connected := true } hs r hr
        · exact sendLoopReads_sized hbody hreads nodes (n + 1) _
            (hbody n { s with connected := true } hs) r hr
      · rw [if_neg hconn] at hr
        exact absurd hr List.not_mem_nil

theorem msgReads_sized {net : Net} (hindex : ∀ n, (net.index n).length = 4096) (n : Nat)
    (s : Sender) (hs : s.buffer.length = 1024) : ∀ r ∈ msgReads net n s, r.Sized := by
  refine List.forall_mem_cons.mpr ⟨hs, List.forall_mem_append.mpr ⟨fun r hr => ?_, ?_⟩⟩
  · by_cases hf : cstr (readTerm 1024 s.buffer (net.peer n).first) = ascii "CONTROL_SET_ON"
    · rw [if_pos hf] at hr
      rw [List.mem_singleton.mp hr]
      exact hindex n
    · rw [if_neg hf] at hr
      exact absurd hr List.not_mem_nil
  · exact List.forall_mem_singleton.mpr (readTerm_length hs _)

theorem nbdReads_sized {net : Net} (n : Nat) (s : Sender) (hs : s.buffer.length = 1024) :
    ∀ r ∈ nbdReads net n s, r.Sized := List.forall_mem_singleton.mpr hs

theorem handleReads_sized {c : Setup} {o : Outcomes} (ho : o.Sized) (i : Int) (v : Vars) :
    ∀ r ∈ handleReads c o i v, r.Sized := by
  refine List.forall_mem_append.mpr ⟨fun r hr => ?_, fun r hr => ?_⟩
  · unfold handlerReads at hr
    cases hcmd : commandOf c (cstr v.buffer) with
    | userSetConfig =>
      simp only [hcmd] at hr
      by_cases hl : c.serverLen > 1
      · rw [if_pos hl] at hr
        exact sendLoopReads_sized (fun n s hs => readTerm_length (readTerm_length hs _) _)
          (msgReads_sized ho.index) c.serverConfig 0 _ ho.msgStack r hr
      · rw [if_neg hl] at hr
        exact absurd hr List.not_mem_nil
    | _ =>
      simp only [hcmd] at hr
      exact absurd hr List.not_mem_nil
  · by_cases hgo : (handler c o i (cstr v.buffer) v).exit = .go
    · rw [if_pos hgo] at hr
      generalize (handler c o i (cstr v.buffer) v).state = w at hr
      unfold gateReads at hr
      by_cases hcount : w.count = c.serverLen - 1
      · rw [if_pos hcount] at hr
        cases hremote : readDMBDRemote c.json w.dmbdConfig with
        | none =>
          rw [hremote] at hr
          exact absurd hr List.not_mem_nil
        | some remote =>
          simp only [hremote] at hr
          by_cases hload : o.vrdInsmod = 0 ∧ (activate c o remote 0 w).1.count ≠ 0
          · rw [if_pos hload] at hr
            exact sendLoopReads_sized (fun n s hs => readInto_length hs _)
              (fun n s hs => nbdReads_sized n s hs) c.serverConfig 0 _ ho.nbdStack r hr
          · rw [if_neg hload] at hr
            exact absurd hr List.not_mem_nil
      · rw [if_neg hcount] at hr
        exact absurd hr List.not_mem_nil
    · rw [if_neg hgo] at hr
      exact absurd hr List.not_mem_nil

/-! ## The buffer of `main` -/

/-- The statement leaves the buffer of `main` alone. -/
def Unread (v : Vars) : Done Vars Event → Prop :=
  Done.Keeps (fun w => w.buffer = v.buffer) fun _ => True

theorem unread_of {v : Vars} {r : Done Vars Event} (h : r.state.buffer = v.buffer) : Unread v r :=
  ⟨h, fun _ _ => trivial⟩

theorem Unread.andThen {v : Vars} {r : Done Vars Event} {f : Vars → Done Vars Event}
    (hr : Unread v r) (hf : ∀ w, Unread w (f w)) : Unread v (r.andThen f) :=
  Done.Keeps.andThen hr fun h => ⟨(hf _).1.trans h, (hf _).2⟩

theorem send_unread {c : Setup} {f : SendFn} {net : Net}
    {body : Nat → Sender → Sender × List Event}
    (hbody : ∀ n s, (body n s).1.vars.buffer = s.vars.buffer) (v : Vars) :
    (send c f net body v).1.vars.buffer = v.buffer :=
  (send_keeps (P := fun w => w.buffer = v.buffer) (Q := fun _ => True)
    (fun n s hs => ⟨(hbody n s).trans hs, fun _ _ => trivial⟩) (fun _ _ => trivial) trivial rfl).1

theorem takeVerdict_unread (second : Bytes) (v : Vars) :
    (takeVerdict second v).buffer = v.buffer := by
  unfold takeVerdict
  split_ifs <;> rfl

theorem takeLoad_unread (answer : Bytes) (v : Vars) : (takeLoad answer v).buffer = v.buffer := by
  unfold takeLoad
  split_ifs <;> rfl

theorem startNbdServers_unread (c : Setup) (o : Outcomes) (rs : List DmbdConfigRemote) (n : Nat)
    (v : Vars) : Unread v (startNbdServers c o rs n v) :=
  startNbdServers_keeps (fun _ _ h => h) trivial trivial (fun _ => trivial) rs n v rfl

theorem loadConfig_unread (c : Setup) (o : Outcomes) (i : Int) (remote : List DmbdConfigRemote)
    (v : Vars) : Unread v (loadConfig c o i remote v) := by
  unfold loadConfig
  by_cases hi : o.configInsmod ≠ 0
  · simp only [if_pos hi]
    exact unread_of rfl
  · simp only [if_neg hi]
    exact Unread.andThen (Unread.andThen (unread_of rfl) (startNbdServers_unread c o remote 0))
      fun _ => unread_of rfl

theorem handler_unread (c : Setup) (o : Outcomes) (i : Int) (text : Bytes) (v : Vars) :
    Unread v (handler c o i text v) := by
  unfold handler
  cases commandOf c text with
  | setConfig =>
    by_cases hs : v.successFlag = 1
    · unfold setConfig
      rw [if_pos hs]
      exact unread_of rfl
    · obtain ⟨es, _, heq⟩ := setConfig_stored (c := c) (o := o) hs i
      simp only [heq]
      refine Unread.andThen (unread_of ?_) fun w =>
        withRemote_keeps rfl fun remote => loadConfig_unread c o i remote w
      show (fileRead o v).buffer = v.buffer
      unfold fileRead
      split_ifs <;> rfl
  | userSetConfig =>
    simp only [userSetConfig]
    by_cases hl : c.serverLen > 1
    · rw [if_pos hl]
      exact unread_of (send_unread (fun _ s => takeVerdict_unread _ s.vars) v)
    · rw [if_neg hl]
      exact unread_of rfl
  | controllerSetConfig => exact unread_of rfl
  | mount =>
    refine mountHandler_keeps rfl (fun _ => rfl) (fun _ _ => trivial) (fun _ _ _ _ => trivial)
      trivial trivial fun w hw => ⟨?_, fun _ _ => trivial⟩
    rwa [mountMsgSend_vars]
  | mountSetOn => exact printMountFile_keeps rfl (fun _ => rfl) trivial trivial
  | nbdSetOn => exact withRemote_keeps rfl fun _ => unread_of rfl
  | unknown => exact unread_of rfl

theorem countGate_unread (c : Setup) (o : Outcomes) (v : Vars) : Unread v (countGate c o v) := by
  unfold countGate
  by_cases hcount : v.count = c.serverLen - 1
  · rw [if_pos hcount]
    refine withRemote_keeps rfl fun remote => unread_of ?_
    obtain ⟨⟨cmd, ha⟩, _⟩ := activate_keeps c o remote 0 v
    show (loadDisk c o (activate c o remote 0 v).1).1.buffer = v.buffer
    rw [ha]
    unfold loadDisk
    by_cases hload : o.vrdInsmod = 0 ∧ v.count ≠ 0
    · rw [if_pos hload]
      exact send_unread (fun _ s => takeLoad_unread _ s.vars) { v with bestioCmd := cmd }
    · rw [if_neg hload]
  · rw [if_neg hcount]
    exact unread_of rfl

theorem nbdGate_unread (c : Setup) (v : Vars) : Unread v (nbdGate c v) := by
  unfold nbdGate
  split_ifs
  · exact withRemote_keeps rfl fun _ => unread_of rfl
  · exact unread_of rfl

/-- No message is handled in a way that touches the buffer it stands in. -/
theorem handle_unread (c : Setup) (o : Outcomes) (i : Int) (v : Vars) :
    Unread v (handle c o i v) := by
  refine (handler_unread c o i (cstr v.buffer) v).andThen fun w => ?_
  refine Unread.andThen (Unread.andThen (countGate_unread c o w) (nbdGate_unread c)) fun u => ?_
  unfold unsuccessGate
  split_ifs <;> exact unread_of rfl

/-- **Each read of a step** is into a buffer of the size of its array, and the buffer of `main`
keeps its size. -/
theorem step_sized (c : Setup) (v : Vars) (inp : Input) (hv : v.buffer.length = 4096)
    (hinp : inp.Sized) :
    (step c v inp).1.buffer.length = 4096 ∧ ∀ r ∈ stepReads c v inp, r.Sized := by
  unfold step stepReads
  by_cases hrun : v.running = true
  · rw [if_pos hrun, if_pos hrun]
    cases inp with
    | accept fd =>
      refine ⟨?_, fun _ hr => absurd hr List.not_mem_nil⟩
      unfold serve
      by_cases hfd : fd < 0
      · simp only [if_pos hfd]
        exact hv
      · simp only [if_neg hfd]
        exact hv
    | read i r o =>
      have hlen := readTerm_length hv r
      unfold serve serveReads
      by_cases hr : r = some []
      · simp only [if_pos hr]
        exact ⟨hlen, List.forall_mem_singleton.mpr hv⟩
      · simp only [if_neg hr]
        refine ⟨?_, List.forall_mem_cons.mpr ⟨hv, handleReads_sized hinp i _⟩⟩
        have hbuf := (handle_unread c o i { v with buffer := readTerm 4096 v.buffer r }).1
        exact (congrArg List.length hbuf).trans hlen
  · rw [if_neg hrun, if_neg hrun]
    exact ⟨hv, fun _ hr => absurd hr List.not_mem_nil⟩

/-- The reads of a run, one with another. -/
theorem readsOf_sized {c : Setup} {v : Vars} (hv : v.buffer.length = 4096) {inputs : List Input}
    (hinp : ∀ inp ∈ inputs, inp.Sized) : ∀ r ∈ readsOf c v inputs, r.Sized := by
  intro r hr
  obtain ⟨t, ht, hr⟩ := List.mem_flatMap.mp hr
  have hstep : ∀ (w : Vars) (inp : Input), w.buffer.length = 4096 → inp.Sized →
      (step c w inp).1.buffer.length = 4096 ∧ ∀ r ∈ stepReads c w inp, r.Sized := fun w inp =>
    step_sized c w inp
  exact forall_trace (P := fun w inp _ => ∀ r ∈ stepReads c w inp, r.Sized) hstep inputs v hv
    (fun t ht => hinp t.input (input_mem_of_mem_trace ht)) t ht r hr

/-- **Buffer indices**: the reads of a run are all exact if all of them fit; and their texts are
every byte that was read if, in addition, none of these is NUL. -/
theorem reads_exact_iff (c : Setup) (v : Vars) (hv : v.Start c) (inputs : List Input)
    (hinp : ∀ inp ∈ inputs, inp.Sized) :
    ((∀ r ∈ readsOf c v inputs, r.Exact) ↔ ∀ r ∈ readsOf c v inputs, r.Fits) ∧
      ((∀ r ∈ readsOf c v inputs, r.Inside ∧ r.text = some r.bytes) ↔
        ∀ r ∈ readsOf c v inputs, r.Fits ∧ NulFree r.bytes) := by
  have hsized := readsOf_sized (c := c) hv.buffer hinp
  exact ⟨forall₂_congr fun r hr => Read.exact_iff (hsized r hr),
    forall₂_congr fun r hr => Read.letter_iff (hsized r hr)⟩

/-! ## Three reads that are not -/

/-- Every call succeeds, over arrays of zeros. -/
def zeroed : Outcomes :=
  { allOk with
    msgNet := { msgOk with
      stack := List.replicate 1024 0
      index := fun _ => List.replicate 4096 0 }
    nbdNet := { nbdOk with stack := List.replicate 1024 0 } }

/-- The other server closes the connection, and the stack holds the answer of an earlier call. -/
def leftOver : Outcomes :=
  { zeroed with nbdNet := { answering "" "" with
      stack := ascii "NBD_CLIENT_LOAD" ++ List.replicate 1009 0
      peer := fun _ => ⟨true, 0, some [], none⟩ } }

theorem zeroed_sized : zeroed.Sized :=
  ⟨List.length_replicate, fun _ => List.length_replicate, List.length_replicate⟩

theorem leftOver_sized : leftOver.Sized :=
  ⟨List.length_replicate, fun _ => List.length_replicate, by decide +kernel⟩

/-- The reads of one message to the controller of two servers. -/
def oneMessage (r : Option Bytes) (o : Outcomes) : List Read :=
  readsOf (twoServers sampleJson) (startVars (some sampleConfig)) [.accept 4, .read 4 r o]

theorem oneMessage_sized {o : Outcomes} (ho : o.Sized) (r : Option Bytes) :
    ∀ inp ∈ [Input.accept 4, .read 4 r o], inp.Sized :=
  List.forall_mem_cons.mpr ⟨trivial, List.forall_mem_singleton.mpr ho⟩

/-- A read that fails has its terminator before the buffer, one that fills the buffer behind it, and
an empty answer shows the older one. -/
theorem reads_outside :
    ¬ (∀ r ∈ oneMessage none zeroed, r.Exact) ∧
      ¬ (∀ r ∈ oneMessage (some (List.replicate 4096 65)) zeroed, r.Exact) ∧
      ¬ (∀ r ∈ oneMessage (some (userText ++ [0])) leftOver, r.Exact) := by
  have hfits : ∀ {o : Outcomes} (_ : o.Sized) {r : Option Bytes},
      (∀ x ∈ oneMessage r o, x.Exact) → ∀ x ∈ oneMessage r o, x.Fits := by
    intro o ho r h x hx
    have hsized := readsOf_sized (c := twoServers sampleJson) (v := startVars (some sampleConfig))
      List.length_replicate (oneMessage_sized ho r) x hx
    exact (Read.exact_iff hsized).mp (h x hx)
  refine ⟨fun h => ?_, fun h => ?_, fun h => ?_⟩
  · exact absurd (hfits zeroed_sized h) (by decide +kernel)
  · exact absurd (hfits zeroed_sized h) (by decide +kernel)
  · exact absurd (hfits leftOver_sized h) (by decide +kernel)

/-- With the protocol's answers all five reads are exact. -/
theorem reads_exact_answered : (oneMessage (some (userText ++ [0])) zeroed).length = 5 ∧
    ∀ r ∈ oneMessage (some (userText ++ [0])) zeroed, r.Exact :=
  ⟨by decide +kernel, (reads_exact_iff (twoServers sampleJson) (startVars (some sampleConfig))
    (startVars_start _ _ _ _) [.accept 4, .read 4 (some (userText ++ [0])) zeroed]
    (oneMessage_sized zeroed_sized _)).1.mpr (by decide +kernel)⟩

end JcmController.Controller
