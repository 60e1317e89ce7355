import JcmController.Controller.Rounds
import JcmController.Lib.Framing

/-!
# Messages and reads of one connection

Nothing in the stream says where a message ends: the main loop takes what one `read` returns as
one message, and the senders take it as one reply.

* `handledTexts_live`: the texts handled are those of the reads, one for one.
* `replies_iff`: the two reads of `msg_send` see the two replies exactly when the first returns the
  first one whole and the second the second one, with or without its NUL.
* `nbd_reply_iff`: the read of `nbd_msg_send`, which stores no terminator, sees the reply exactly
  when it returns its NUL too or the buffer holds the rest of it.
* **`framing_exact`**: the main loop handles the texts that were sent, and no left-over as a
  message, exactly when every read returns one message and the process lives until the last.
-/

namespace JcmController.Controller

open JcmController.Lib

/-! ## The main loop -/

/-- Successive reads from connection `i`, from the `k`-th on. -/
def readInputs (i : Int) (outs : Nat → Outcomes) : Nat → List Bytes → List Input
  | _, [] => []
  | k, bs :: reads => .read i (some bs) (outs k) :: readInputs i outs (k + 1) reads

/-- The text a step handles as a message. -/
def handledText (t : Taken Vars Input Event) : Option Bytes :=
  match t.events.head? with
  | some (.message _ text) => some text
  | _ => none

/-- The texts a run of the main loop handles, in order. -/
def handledTexts (c : Setup) (v : Vars) (is : List Input) : List Bytes :=
  (trace (step c) v is).filterMap handledText

theorem readInputs_length (i : Int) (outs : Nat → Outcomes) :
    ∀ (k : Nat) (reads : List Bytes), (readInputs i outs k reads).length = reads.length
  | _, [] => rfl
  | k, _ :: reads => congrArg (· + 1) (readInputs_length i outs (k + 1) reads)

theorem handledTexts_length_le (c : Setup) (v : Vars) (i : Int) (outs : Nat → Outcomes)
    (k : Nat) (reads : List Bytes) :
    (handledTexts c v (readInputs i outs k reads)).length ≤ reads.length := by
  refine (List.length_filterMap_le _ _).trans ?_
  rw [trace_length, readInputs_length]

/-- **While the process lives, each read is handled as one message**, its string. -/
theorem handledTexts_live {c : Setup} {i : Int} {outs : Nat → Outcomes} (reads : List Bytes)
    (k : Nat) (v : Vars) (hne : ∀ bs ∈ reads, bs ≠ [])
    (hlive : ∀ t ∈ trace (step c) v (readInputs i outs k reads), t.before.running = true) :
    handledTexts c v (readInputs i outs k reads) = reads.map fun bs => cstr (bs.take 4096) := by
  induction reads generalizing k v with
  | nil => rfl
  | cons bs reads ih =>
    obtain ⟨hbs, hne⟩ := List.forall_mem_cons.mp hne
    obtain ⟨hrun, hlive⟩ := List.forall_mem_cons.mp hlive
    have hsome : some bs ≠ some [] := fun h => hbs (Option.some.inj h)
    have hrest := ih (k + 1) _ hne hlive
    have hhead : handledText ⟨v, .read i (some bs) (outs k),
        (step c v (.read i (some bs) (outs k))).2⟩ = some (cstr (bs.take 4096)) := by
      rw [step_message hrun hsome]
      exact congrArg some (cstr_readTerm_some 4096 v.buffer bs)
    rw [List.map_cons, ← hrest]
    exact List.filterMap_cons_some hhead

/-! ## The replies to `msg_send` -/

/-- The texts of the answers `f` read. -/
def answerTexts (f : SendFn) (events : List Event) : List Bytes :=
  events.filterMap fun
    | .answer g _ text => if g = f then some text else none
    | _ => none

theorem answerTexts_configExchange (f : SendFn) (net : Net) (n : Nat) (v : Vars) (first : Bytes) :
    answerTexts f (configExchange net n v first) = [] := by
  unfold configExchange
  by_cases hf : cstr first = ascii "CONTROL_SET_ON"
  · rw [if_pos hf]
    cases (indexFile net n v.dmbdConfig).isSome <;> rfl
  · rw [if_neg hf]
    rfl

/-- The body of `msg_send` compares the strings of its two reads. -/
theorem answerTexts_msgBody {net : Net} {n : Nat} {r₁ r₂ : Bytes}
    (h₁ : (net.peer n).first = some r₁) (h₂ : (net.peer n).second = some r₂) (buf : Bytes)
    (s : Sender) :
    answerTexts .msgSend (msgBody net buf n s).2 =
      [cstr (r₁.take 1024), cstr (r₂.take 1024)] := by
  have happ : ∀ es es' : List Event, answerTexts .msgSend (es ++ es') =
      answerTexts .msgSend es ++ answerTexts .msgSend es' := fun _ _ => List.filterMap_append
  unfold msgBody
  rw [happ, happ, answerTexts_configExchange, h₁, h₂]
  rfl

/-- `msg_send` reads the replies as they were sent: the strings it compares are theirs. -/
def RepliesRead (net : Net) (n : Nat) (buf : Bytes) (s : Sender) (reply₁ reply₂ : Bytes) : Prop :=
  answerTexts .msgSend (msgBody net buf n s).2 = [reply₁, reply₂]

/-- **The two reads of `msg_send` see the two replies** exactly when the first returns the first
one whole and the second the second one, with or without its NUL. -/
theorem replies_iff {net : Net} {n : Nat} {r₁ r₂ reply₁ reply₂ : Bytes}
    (h₁ : (net.peer n).first = some r₁) (h₂ : (net.peer n).second = some r₂)
    (hcap₁ : r₁.length ≤ 1024) (hcap₂ : r₂.length ≤ 1024)
    (hr₁ : NulFree reply₁) (hr₂ : NulFree reply₂) (hne : reply₂ ≠ [])
    (hstream : r₁ ++ r₂ <+: (reply₁ ++ [0]) ++ (reply₂ ++ [0])) (buf : Bytes) (s : Sender) :
    RepliesRead net n buf s reply₁ reply₂ ↔
      r₁ = reply₁ ++ [0] ∧ (r₂ = reply₂ ++ [0] ∨ r₂ = reply₂) := by
  unfold RepliesRead
  rw [answerTexts_msgBody h₁ h₂, List.take_of_length_le hcap₁, List.take_of_length_le hcap₂,
    ← cstr_two_reads hr₁ hr₂ hne hstream]
  constructor
  · intro h
    obtain ⟨h, ht⟩ := List.cons.inj h
    exact ⟨h, (List.cons.inj ht).1⟩
  · rintro ⟨ha, hb⟩
    rw [ha, hb]

/-! ## The reply to `nbd_msg_send` -/

/-- **The read of `nbd_msg_send` sees the reply** exactly when it returns the reply's NUL too, or
what `buffer` still holds behind it is the rest of the reply: no terminator is stored. -/
theorem nbd_reply_iff {net : Net} {n : Nat} {r reply rest : Bytes}
    (h : (net.peer n).first = some r) (hcap : r.length ≤ 1024) (hr : NulFree reply)
    (hstream : r <+: reply ++ 0 :: rest) (buf : Bytes) (s : Sender) :
    cstr (nbdBody net buf n s).1.buffer = reply ↔
      reply.length < r.length ∨ cstr (s.buffer.drop r.length) = reply.drop r.length := by
  have hbuffer : (nbdBody net buf n s).1.buffer = r ++ s.buffer.drop r.length := by
    show readInto 1024 s.buffer (net.peer n).first = _
    rw [h]
    show r.take 1024 ++ s.buffer.drop (r.take 1024).length = _
    rw [List.take_of_length_le hcap]
  rw [hbuffer]
  by_cases hlen : reply.length < r.length
  · obtain ⟨x, rfl⟩ := List.prefix_of_prefix_length_le (List.prefix_append reply (0 :: rest))
      hstream hlen.le
    have hx : x <+: 0 :: rest := (List.prefix_append_right_inj reply).mp hstream
    cases x with
    | nil => exact absurd hlen (by simp)
    | cons b x =>
      rw [(List.cons_prefix_cons.mp hx).1, List.append_assoc, List.cons_append]
      refine iff_of_true (cstr_append_zero_cons hr _) (Or.inl ?_)
      simp
  · obtain ⟨x, rfl⟩ := List.prefix_of_prefix_length_le hstream
      (List.prefix_append reply (0 :: rest)) (Nat.le_of_not_lt hlen)
    have hfree : NulFree r := fun b hb => hr b (List.mem_append_left x hb)
    rw [cstr_append_of_nulFree hfree, or_iff_right hlen, List.drop_left, List.append_right_inj]

/-- It counts the acknowledgement where that is the text it sees. -/
theorem nbd_counts_iff (net : Net) (buf : Bytes) (n : Nat) (s : Sender) :
    (nbdBody net buf n s).1.vars.nbdCount = s.vars.nbdCount + 1 ↔
      cstr (nbdBody net buf n s).1.buffer = ascii "NBD_CLIENT_LOAD" := by
  show (takeLoad (readInto 1024 s.buffer (net.peer n).first) s.vars).nbdCount = _ ↔
    cstr (readInto 1024 s.buffer (net.peer n).first) = _
  by_cases hl : cstr (readInto 1024 s.buffer (net.peer n).first) = ascii "NBD_CLIENT_LOAD"
  · rw [takeLoad_load hl]
    exact iff_of_true rfl hl
  · unfold takeLoad
    rw [if_neg hl]
    exact iff_of_false (fun h => by omega) hl

/-! ## Framing -/

/-- The main loop handles the messages with their contents, one after the other, and none of its
reads starts inside a message. -/
def HandledAsSent (c : Setup) (v : Vars) (i : Int) (outs : Nat → Outcomes) (ms reads : List Bytes) :
    Prop :=
  handledTexts c v (readInputs i outs 0 reads) = ms.map cstr ∧ Aligned ms reads

/-- Only a living process handles something. -/
theorem running_of_handledText {c : Setup} {v : Vars} {is : List Input}
    {t : Taken Vars Input Event} (ht : t ∈ trace (step c) v is) (h : (handledText t).isSome) :
    t.before.running = true := by
  cases hes : t.events with
  | nil =>
    unfold handledText at h
    rw [hes] at h
    cases h
  | cons e es =>
    have he : e ∈ t.events := hes ▸ List.mem_cons_self
    exact running_of_mem_step (events_of_mem_trace ht ▸ he)

/-- **Which reads are handled as sent**: those that are the messages, all of them by a living
process. -/
theorem handledAsSent_iff {c : Setup} {v : Vars} {i : Int} {outs : Nat → Outcomes}
    {ms reads : List Bytes} (hms : ∀ m ∈ ms, m ≠ []) (hreads : ∀ r ∈ reads, r ≠ [])
    (hcap : ∀ r ∈ reads, r.length ≤ 4096) (hflat : reads.flatten = ms.flatten) :
    HandledAsSent c v i outs ms reads ↔
      reads = ms ∧ ∀ t ∈ trace (step c) v (readInputs i outs 0 reads),
        t.before.running = true := by
  constructor
  · rintro ⟨htexts, hal⟩
    have hcount : (handledTexts c v (readInputs i outs 0 reads)).length = ms.length := by
      rw [htexts, List.length_map]
    have heq : reads = ms := eq_of_aligned hreads hms hflat hal
      (hcount.symm.trans_le (handledTexts_length_le c v i outs 0 reads))
    refine ⟨heq, fun t ht => running_of_handledText ht ?_⟩
    -- as many texts as reads: every step handled one
    have hfull : (handledTexts c v (readInputs i outs 0 reads)).length =
        (trace (step c) v (readInputs i outs 0 reads)).length := by
      rw [hcount, trace_length, readInputs_length, heq]
    exact List.filterMap_length_eq_length.mp hfull t ht
  · rintro ⟨rfl, hlive⟩
    refine ⟨?_, fun k _ => ⟨k, rfl⟩⟩
    rw [handledTexts_live reads 0 v hreads hlive]
    exact List.map_congr_left fun r hr => by rw [List.take_of_length_le (hcap r hr)]

/-- **Framing.** For every sequence of messages on a connection and every way of cutting and
joining their bytes into reads, the main loop handles the texts that were sent, and no left-over,
exactly when each read is one message and the process lives until the last; `msg_send` sees its two
replies exactly when each read is one reply, the last NUL aside; and `nbd_msg_send` sees its reply
exactly when its read returns the reply's NUL, or its buffer holds the rest. -/
theorem framing_exact (c : Setup) (v : Vars) (i : Int) (outs : Nat → Outcomes)
    (ms reads : List Bytes) (hms : ∀ m ∈ ms, m ≠ []) (hreads : ∀ r ∈ reads, r ≠ [])
    (hcap : ∀ r ∈ reads, r.length ≤ 4096) (hflat : reads.flatten = ms.flatten) :
    (HandledAsSent c v i outs ms reads ↔
      reads = ms ∧ ∀ t ∈ trace (step c) v (readInputs i outs 0 reads),
        t.before.running = true) ∧
      (∀ (net : Net) (n : Nat) (buf : Bytes) (s : Sender) (r₁ r₂ reply₁ reply₂ : Bytes),
        (net.peer n).first = some r₁ → (net.peer n).second = some r₂ →
        r₁.length ≤ 1024 → r₂.length ≤ 1024 →
        NulFree reply₁ → NulFree reply₂ → reply₂ ≠ [] →
        r₁ ++ r₂ <+: (reply₁ ++ [0]) ++ (reply₂ ++ [0]) →
        (RepliesRead net n buf s reply₁ reply₂ ↔
          r₁ = reply₁ ++ [0] ∧ (r₂ = reply₂ ++ [0] ∨ r₂ = reply₂))) ∧
      ∀ (net : Net) (n : Nat) (buf : Bytes) (s : Sender) (r reply rest : Bytes),
        (net.peer n).first = some r → r.length ≤ 1024 → NulFree reply →
        r <+: reply ++ 0 :: rest →
        (cstr (nbdBody net buf n s).1.buffer = reply ↔
          reply.length < r.length ∨ cstr (s.buffer.drop r.length) = reply.drop r.length) ∧
        ((nbdBody net buf n s).1.vars.nbdCount = s.vars.nbdCount + 1 ↔
          cstr (nbdBody net buf n s).1.buffer = ascii "NBD_CLIENT_LOAD") := by
  refine ⟨handledAsSent_iff hms hreads hcap hflat, ?_, ?_⟩
  · intro net n buf s r₁ r₂ reply₁ reply₂ h₁ h₂ hcap₁ hcap₂ hr₁ hr₂ hne hstream
    exact replies_iff h₁ h₂ hcap₁ hcap₂ hr₁ hr₂ hne hstream buf s
  · intro net n buf s r reply rest h hcap hr hstream
    exact ⟨nbd_reply_iff h hcap hr hstream buf s, nbd_counts_iff net buf n s⟩

/-- No other server can be reached. -/
def unreachable : Outcomes :=
  { allOk with msgNet := { msgOk with peer := fun _ => ⟨false, 0, none, none⟩ } }

/-- The client's message as it sends it, padded to 1024 bytes. -/
def userMessage : Bytes := userText ++ List.replicate 993 0

/-- Its bytes in two reads. -/
def cutMessage : List Bytes := [userMessage.take 1000, userMessage.drop 1000]

theorem cutMessage_flatten : cutMessage.flatten = [userMessage].flatten := by
  rw [cutMessage, List.flatten_cons, List.flatten_singleton, List.flatten_singleton,
    List.take_append_drop]

/-- The tail of the message is handled as a message of its own, and empties `dmbd_config`. -/
theorem cut_message_not_as_sent :
    cutMessage.flatten = [userMessage].flatten ∧
      ¬ HandledAsSent (twoServers sampleJson) accepted 4 (fun _ => unreachable) [userMessage]
        cutMessage ∧
      (final (step (twoServers sampleJson)) accepted
        (readInputs 4 (fun _ => unreachable) 0 [userMessage])).dmbdConfig = some sampleConfig ∧
      (final (step (twoServers sampleJson)) accepted
        (readInputs 4 (fun _ => unreachable) 0 cutMessage)).dmbdConfig = some [] := by
  refine ⟨cutMessage_flatten, fun h => ?_, ?_, ?_⟩
  · exact absurd (congrArg List.length h.1) (by decide +kernel)
  · decide +kernel
  · decide +kernel

/-- Read whole, the client's message is handled as sent, and in two reads it is not; the replies of
one server are seen. -/
theorem framing_exact_user :
    HandledAsSent (twoServers sampleJson) accepted 4 (fun _ => unreachable) [userMessage]
        [userMessage] ∧
      ¬ HandledAsSent (twoServers sampleJson) accepted 4 (fun _ => unreachable) [userMessage]
        cutMessage ∧
      (∀ s, RepliesRead msgOk 1 controllerCmd s (ascii "CONTROL_SET_ON") (ascii "success")) ∧
      ∀ s, (nbdBody nbdOk nbdClientMsg 1 s).1.vars.nbdCount = s.vars.nbdCount + 1 := by
  have hne : ∀ m ∈ [userMessage], m ≠ [] :=
    List.forall_mem_singleton.mpr (by decide +kernel)
  have hcap : ∀ m ∈ [userMessage], m.length ≤ 4096 :=
    List.forall_mem_singleton.mpr (by decide +kernel)
  have hcut : ∀ r ∈ cutMessage, r ≠ [] :=
    List.forall_mem_cons.mpr ⟨by decide +kernel, List.forall_mem_singleton.mpr (by decide +kernel)⟩
  have hcutcap : ∀ r ∈ cutMessage, r.length ≤ 4096 :=
    List.forall_mem_cons.mpr ⟨by decide +kernel, List.forall_mem_singleton.mpr (by decide +kernel)⟩
  obtain ⟨hsent, hreplies, hnbd⟩ := framing_exact (twoServers sampleJson) accepted 4
    (fun _ => unreachable) [userMessage] [userMessage] hne hne hcap rfl
  refine ⟨hsent.mpr ⟨rfl, ?_⟩, fun h => ?_, fun s => ?_, fun s => ?_⟩
  · exact List.forall_mem_cons.mpr ⟨by decide +kernel, fun _ h => absurd h List.not_mem_nil⟩
  · have heq := ((framing_exact (twoServers sampleJson) accepted 4 (fun _ => unreachable)
      [userMessage] cutMessage hne hcut hcutcap cutMessage_flatten).1.mp h).1
    exact absurd (congrArg List.length heq) (by decide)
  · exact (hreplies msgOk 1 controllerCmd s (nulTerminated "CONTROL_SET_ON")
      (nulTerminated "success") (ascii "CONTROL_SET_ON") (ascii "success") rfl rfl
      (by decide +kernel) (by decide +kernel) (by decide +kernel) (by decide +kernel)
      (by decide +kernel) (List.prefix_refl _)).mpr ⟨rfl, Or.inl rfl⟩
  · obtain ⟨hseen, hcounts⟩ := hnbd nbdOk 1 nbdClientMsg s (nulTerminated "NBD_CLIENT_LOAD")
      (ascii "NBD_CLIENT_LOAD") [] rfl (by decide +kernel) (by decide +kernel) (List.prefix_refl _)
    exact hcounts.mpr (hseen.mpr (Or.inl (by decide +kernel)))

end JcmController.Controller
