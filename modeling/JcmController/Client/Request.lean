import JcmController.Client.Wait
import JcmController.Controller.MountCommand
import JcmController.Controller.Pair

/-!
# A client's request, from end to end

`client.c` and `jcm_cliet.c` connect to the coordinator, write one request and wait. The request
comes through `sprintf`, the connection, json-c and the handlers of the coordinator and its peer;
what the coordinator writes comes back into `buf`. json-c is a reader of JSON texts.

* `Asker.textOf_sent`: the coordinator handles the request without what stands behind it.
* `Asker.command`: it is taken for `USER_SET_CONFIG`, where the arguments of `client.c` are plain.
* `request_stream`: the connection carries "success" or nothing.
* **`request_answered`**: from every state a coordinator reaches and every state of its peer, the
  client's wait ends by a verdict exactly where the round succeeds and "success" shows in `buf`.
  After a round that fails it waits in `read` for as long as the connection is open; what it tells
  when it ends is what `buf` held before. Where the round succeeds both servers agree.
-/

namespace JcmController.Client

open JcmController.Lib JcmController.Lib.JsonText JcmController.Controller

/-! ## The request -/

/-- What a read brings of a message is handled without what stands behind its NUL. -/
theorem textOf_message {message : Bytes} (hfree : NulFree message)
    (hshort : message.length < BUF_SIZE) (v : Vars) (memory : Bytes) {m : Nat}
    (hm : message.length < m) :
    textOf v (some (((overlay memory (message ++ [0])).take BUF_SIZE).take m)) = message := by
  obtain ⟨k, hk⟩ : ∃ k, min (min 4096 m) BUF_SIZE = message.length + (k + 1) :=
    ⟨min (min 4096 m) BUF_SIZE - message.length - 1, by unfold BUF_SIZE at *; omega⟩
  rw [textOf, cstr_readTerm_some, List.take_take, List.take_take, hk, overlay, List.append_assoc,
    List.take_length_add_append, List.singleton_append, List.take_succ_cons]
  exact cstr_append_zero_cons hfree _

/-- The clients that ask for the configuration to be set. -/
inductive Asker where
  | client (mode chunkSize : ClientField)
  | jcmCliet

namespace Asker

/-- What `sprintf` makes. -/
def message : Asker → Bytes
  | client mode chunkSize =>
    ascii "\x7b \"cmd_type\": \"USER_SET_CONFIG\", \"mode\": \"" ++ mode.text ++
      ascii "\", \"chunk_size\" : \"" ++ chunkSize.text ++ ascii "\"\x7d"
  | jcmCliet => ascii "\x7b\"cmd_type\": \"USER_SET_CONFIG\"\x7d"

/-- `write(client_sock, buffer, BUF_SIZE)`: the message with its NUL, and what `malloc` found
there. -/
def sent (memory : Bytes) (a : Asker) : Bytes := (overlay memory (a.message ++ [0])).take BUF_SIZE

/-- Its arguments stand for themselves in a JSON string. -/
def Spoken (d : Dialect) : Asker → Prop
  | client mode chunkSize => Plain d mode.text ∧ Plain d chunkSize.text
  | jcmCliet => True

theorem message_short (a : Asker) : a.message.length < BUF_SIZE := by
  cases a with
  | client mode chunkSize =>
    have hhead : (ascii "\x7b \"cmd_type\": \"USER_SET_CONFIG\", \"mode\": \"").length = 42 := by
      decide +kernel
    have hmid : (ascii "\", \"chunk_size\" : \"").length = 19 := by decide +kernel
    have hend : (ascii "\"\x7d").length = 2 := by decide +kernel
    have hmode := mode.fits
    have hchunk := chunkSize.fits
    simp only [message, List.length_append, hhead, hmid, hend]
    unfold BUF_SIZE
    omega
  | jcmCliet => decide +kernel

theorem message_nulFree (a : Asker) : NulFree a.message := by
  cases a with
  | client mode chunkSize =>
    have hhead : NulFree (ascii "\x7b \"cmd_type\": \"USER_SET_CONFIG\", \"mode\": \"") := by
      decide +kernel
    have hmid : NulFree (ascii "\", \"chunk_size\" : \"") := by decide +kernel
    have hend : NulFree (ascii "\"\x7d") := by decide +kernel
    intro b hb
    simp only [message, List.mem_append, or_assoc] at hb
    rcases hb with hb | hb | hb | hb | hb
    · exact hhead b hb
    · exact mode.nulFree b hb
    · exact hmid b hb
    · exact chunkSize.nulFree b hb
    · exact hend b hb
  | jcmCliet => decide +kernel

/-- **The coordinator handles the request**, once a read has brought it with its NUL. -/
theorem textOf_sent (a : Asker) (v : Vars) (memory : Bytes) {m : Nat} (hm : a.message.length < m) :
    textOf v (some ((a.sent memory).take m)) = a.message :=
  textOf_message a.message_nulFree a.message_short v memory hm

/-! ## json-c -/

/-- The words of the requests stand for themselves. -/
theorem plain_words (d : Dialect) : Plain d (ascii "cmd_type") ∧
    Plain d (ascii "USER_SET_CONFIG") ∧ Plain d (ascii "mode") ∧ Plain d (ascii "chunk_size") := by
  refine ⟨plain_of_ascii d ?_, plain_of_ascii d ?_, plain_of_ascii d ?_, plain_of_ascii d ?_⟩
  all_goals decide +kernel

/-- The members of a request. -/
def fields : Asker → List (Bytes × Bytes)
  | client mode chunkSize => [(ascii "cmd_type", ascii "USER_SET_CONFIG"),
      (ascii "mode", mode.text), (ascii "chunk_size", chunkSize.text)]
  | jcmCliet => [(ascii "cmd_type", ascii "USER_SET_CONFIG")]

/-- The last member that `client.c` writes has a space before its colon. -/
def chunkField (chunkSize rest : Bytes) : Bytes :=
  32 :: quote :: (ascii "chunk_size" ++ quote :: 32 :: 58 :: 32 :: quote ::
    (chunkSize ++ quote :: rest))

theorem client_message_eq (mode chunkSize : ClientField) :
    (client mode chunkSize).message = 123 :: field (ascii "cmd_type", ascii "USER_SET_CONFIG")
      (44 :: field (ascii "mode", mode.text) (44 :: chunkField chunkSize.text [125])) := by
  have hhead : ascii "\x7b \"cmd_type\": \"USER_SET_CONFIG\", \"mode\": \"" =
      123 :: 32 :: quote :: (ascii "cmd_type" ++ quote :: 58 :: 32 :: quote ::
        (ascii "USER_SET_CONFIG" ++ quote :: 44 :: 32 :: quote ::
          (ascii "mode" ++ [quote, 58, 32, quote]))) := by
    decide +kernel
  have hmid : ascii "\", \"chunk_size\" : \"" = quote :: 44 :: 32 :: quote ::
      (ascii "chunk_size" ++ [quote, 32, 58, 32, quote]) := by
    decide +kernel
  have hend : ascii "\"\x7d" = [quote, 125] := by decide +kernel
  simp [message, field, chunkField, hhead, hmid, hend]

theorem jcmCliet_message_eq : jcmCliet.message = 123 :: quote :: (ascii "cmd_type" ++
    quote :: 58 :: 32 :: quote :: (ascii "USER_SET_CONFIG" ++ [quote, 125])) := by
  decide +kernel

variable {J : Type} {d : Dialect} {B : Builder J}

/-- The value of a request, with fuel for its members. -/
theorem value_message {a : Asker} (h : a.Spoken d) (fuel : Nat) :
    value d B (fuel + 5) a.message =
      some (B.obj (a.fields.map fun m => (m.1, B.str m.2)), []) := by
  obtain ⟨hcmd, hset, hmode, hchunk⟩ := plain_words d
  cases a with
  | client mode chunkSize =>
    have hlast : members d B (fuel + 2) (chunkField chunkSize.text [125]) =
        some ([(ascii "chunk_size", B.str chunkSize.text)], []) := by
      unfold chunkField
      rw [members_string hchunk fuel rfl rfl rfl, string_plain h.2]
      rfl
    rw [client_message_eq, value_members _ rfl, members_next hcmd hset, members_next hmode h.1,
      hlast]
    rfl
  | jcmCliet =>
    rw [jcmCliet_message_eq, value_members _ rfl, members_string hcmd _ rfl rfl rfl,
      string_plain hset]
    rfl

theorem message_long (a : Asker) : 2 ≤ a.message.length := by
  cases a with
  | client mode chunkSize =>
    rw [client_message_eq, List.length_cons, field, List.length_cons]
    exact Nat.le_add_left 2 _
  | jcmCliet => decide +kernel

/-- **The requests are read as they stand.** -/
theorem parse_message {a : Asker} (h : a.Spoken d) :
    parse d B a.message = some (B.obj (a.fields.map fun m => (m.1, B.str m.2))) := by
  have hlong := a.message_long
  obtain ⟨fuel, hfuel⟩ : ∃ k, 2 * a.message.length + 1 = k + 5 :=
    ⟨2 * a.message.length - 4, by omega⟩
  rw [parse, hfuel, value_message h, Option.bind_some, if_pos d.trailing_nil]

/-- **The request is taken for `USER_SET_CONFIG`.** -/
theorem command {c : Setup} {int64 : Bytes → UInt64} (hjson : ReadsJson c.json d int64) {a : Asker}
    (h : a.Spoken d) : commandOf c a.message = .userSetConfig := by
  have hnodup : ((a.fields.map fun m => (m.1, (builder int64).str m.2)).map Prod.fst).Nodup := by
    cases a with
    | client mode chunkSize =>
      show [ascii "cmd_type", ascii "mode", ascii "chunk_size"].Nodup
      decide +kernel
    | jcmCliet => exact List.nodup_singleton _
  have hmem : (ascii "cmd_type", ascii "USER_SET_CONFIG") ∈ a.fields := by
    cases a <;> exact List.mem_cons_self
  have hparse : c.json.tokenerParse a.message = some (.obj
      (Assoc.ofList (a.fields.map fun m => (m.1, (builder int64).str m.2))).entries) := by
    rw [hjson, parse_message h]
    rfl
  have hget : objectGetEx (c.json.tokenerParse a.message) (ascii "cmd_type") =
      some (.str (ascii "USER_SET_CONFIG")) := by
    rw [hparse, objectGetEx_ofList, Assoc.get?_ofList_of_mem hnodup (List.mem_map_of_mem hmem)]
    rfl
  have hword : c.json.getString (some (.str (ascii "USER_SET_CONFIG"))) =
      some (ascii "USER_SET_CONFIG") := congrArg some (cstr_eq_self (by decide +kernel))
  unfold commandOf
  rw [hget, hword]
  decide +kernel

end Asker

/-- A reader of JSON texts reads the messages of the two senders. -/
theorem readsMessages_of_readsJson {jc : JsonC} {d : Dialect} {int64 : Bytes → UInt64}
    (h : ReadsJson jc d int64) : jc.ReadsMessages := by
  have hread : ∀ s, Plain d s → jc.tokenerParse (object [(ascii "cmd_type", s)]) =
      some (.obj [(ascii "cmd_type", some (.str s))]) := by
    intro s hs
    have hall : AllPlain d [(ascii "cmd_type", s)] :=
      List.forall_mem_singleton.mpr ⟨(Asker.plain_words d).1, hs⟩
    rw [h, parse_printed hall (List.cons_ne_nil _ _)]
    rfl
  have hcontroller : controllerCmd =
      object [(ascii "cmd_type", ascii "CONTROLLER_SET_CONFIG")] := by
    decide +kernel
  have hnbd : nbdClientMsg = object [(ascii "cmd_type", ascii "NBD_SET_ON")] := by decide +kernel
  constructor
  · rw [hcontroller]
    exact hread _ (plain_of_ascii d (by decide +kernel))
  · rw [hnbd]
    exact hread _ (plain_of_ascii d (by decide +kernel))

/-! ## The answer -/

theorem stream_eq_flatten (fd : Int) (es : List Event) :
    stream fd es = (writesOn fd es).flatten := by
  induction es with
  | nil => rfl
  | cons e es ih =>
    have hcons : stream fd (e :: es) = writesTo fd e ++ stream fd es := rfl
    rw [hcons, ih, ← List.singleton_append, writesOn_append, List.flatten_append]
    congr 1
    cases e with
    | reply i msg =>
      by_cases hi : i = fd
      · simp [writesTo, writesOn, hi]
      · simp [writesTo, writesOn, hi]
    | verdict i msg =>
      by_cases hi : i = fd
      · simp [writesTo, writesOn, hi]
      · simp [writesTo, writesOn, hi]
    | _ => rfl

theorem loadConfig_reply_fd {c : Setup} {o : Outcomes} {i j : Int} {remote : List DmbdConfigRemote}
    {v : Vars} {msg : Bytes} (h : .reply j msg ∈ (loadConfig c o i remote v).events) : j = i := by
  by_cases hi : o.configInsmod = 0
  · rw [loadConfig_zero hi] at h
    rcases Done.mem_andThen.mp h with h | ⟨_, h⟩
    · exact (loaded_silent c o remote v _ h).elim
    · exact (Event.reply.inj (List.mem_singleton.mp h)).1
  · rw [loadConfig_nonzero hi] at h
    cases List.mem_singleton.mp h

theorem setConfig_reply_fd {c : Setup} {o : Outcomes} {i j : Int} {v : Vars} {msg : Bytes}
    (h : .reply j msg ∈ (setConfig c o i v).events) : j = i := by
  by_cases hs : v.successFlag = 1
  · unfold setConfig at h
    rw [if_pos hs] at h
    exact absurd h List.not_mem_nil
  · obtain ⟨es, hes, heq⟩ := setConfig_stored (c := c) (o := o) hs i
    rw [heq] at h
    rcases Done.mem_andThen.mp h with h | ⟨_, h⟩
    · cases hes _ h
    · obtain ⟨remote, h⟩ := mem_withRemote h
      exact loadConfig_reply_fd h

/-- A handler answers on the connection that its message came from. -/
theorem handler_reply_fd {c : Setup} {o : Outcomes} {i j : Int} {text : Bytes} {v : Vars}
    {msg : Bytes} (h : .reply j msg ∈ (handler c o i text v).events) : j = i := by
  unfold handler at h
  cases hc : commandOf c text with
  | setConfig =>
    rw [hc] at h
    exact setConfig_reply_fd h
  | userSetConfig =>
    rw [hc] at h
    exact absurd ((userSetConfig_spec c o v).2.2 _ h) id
  | controllerSetConfig =>
    rw [hc] at h
    exact (Event.reply.inj (List.mem_singleton.mp h)).1
  | mount =>
    rw [hc] at h
    exact absurd ((mountHandler_silent c o _ v).2 _ h) id
  | mountSetOn =>
    rw [hc] at h
    exact absurd ((mountSetOn_silent c o _ v).2 _ h) id
  | nbdSetOn =>
    rw [hc] at h
    obtain ⟨_, h⟩ := mem_withRemote h
    exact (Event.reply.inj (List.mem_singleton.mp h)).1
  | unknown =>
    rw [hc] at h
    exact absurd h List.not_mem_nil

/-- Events without verdicts, and with answers to other connections only. -/
theorem writesOn_plain {fd : Int} {es : List Event} (h : ∀ e ∈ es, e.Plain)
    (hreply : ∀ j msg, .reply j msg ∈ es → j ≠ fd) : writesOn fd es = [] := by
  refine List.filterMap_eq_nil_iff.mpr fun e he => ?_
  cases e with
  | reply j msg => exact if_neg (hreply j msg he)
  | verdict i msg => exact absurd ⟨i, msg, rfl⟩ (h _ he).not_verdict
  | _ => rfl

/-- What the coordinator may take up between the connection of a client and its request: reads of
other connections, no request among them. -/
def Aside (c : Setup) (fd : Int) (v : Vars) (inp : Input) : Prop :=
  ∃ i r o, inp = .read i r o ∧ i ≠ fd ∧ (r ≠ some [] → commandOf c (textOf v r) ≠ .userSetConfig)

/-- It writes nothing to the client, which stays the last one accepted. -/
theorem aside_step {c : Setup} (hl : 2 ≤ c.serverLen) {fd : Int} {v : Vars} (hv : Between c v)
    {inp : Input} (h : Aside c fd v inp) :
    (step c v inp).1.clientSock = v.clientSock ∧ writesOn fd (step c v inp).2 = [] := by
  obtain ⟨i, r, o, rfl, hi, hcmd⟩ := h
  by_cases hrun : v.running = true
  · by_cases hr : r = some []
    · subst hr
      unfold step serve
      rw [if_pos hrun]
      exact ⟨rfl, rfl⟩
    · have hsettled : Settled c (afterRead v r) := (hv hrun).of_same ⟨rfl, rfl, rfl, rfl⟩
      obtain ⟨hround, hplain⟩ := handler_still (o := o) (i := i) (v := afterRead v r) (hcmd hr)
      -- the gates do nothing
      have hgates := gates_settled hl (hsettled.of_same hround) o
      have hhandle : (handle c o i (afterRead v r)).state.clientSock = v.clientSock ∧
          (handle c o i (afterRead v r)).events =
            (handler c o i (textOf v r) (afterRead v r)).events := by
        show ((handler c o i (textOf v r) (afterRead v r)).andThen _).state.clientSock = _ ∧
          ((handler c o i (textOf v r) (afterRead v r)).andThen _).events = _
        by_cases hgo : (handler c o i (textOf v r) (afterRead v r)).exit = .go
        · rw [Done.andThen_go hgo, hgates]
          exact ⟨hround.clientSock, List.append_nil _⟩
        · rw [Done.andThen_stop hgo]
          exact ⟨hround.clientSock, rfl⟩
      rw [step_message hrun hr, hhandle.2]
      refine ⟨hhandle.1, writesOn_plain (List.forall_mem_cons.mpr ⟨trivial, hplain⟩) ?_⟩
      intro j msg he
      rcases List.mem_cons.mp he with he | he
      · cases he
      · rw [handler_reply_fd he]
        exact hi
  · rw [step_dead hrun]
    exact ⟨rfl, rfl⟩

theorem runEvents_append (c : Setup) (v : Vars) (is js : List Input) :
    runEvents c v (is ++ js) = runEvents c v is ++ runEvents c (final (step c) v is) js := by
  unfold runEvents
  rw [trace_append, List.flatMap_append]

theorem aside_run {c : Setup} (hl : 2 ≤ c.serverLen) {fd : Int} (is : List Input) {v : Vars}
    (hv : Between c v) (h : ∀ t ∈ trace (step c) v is, Aside c fd t.before t.input) :
    (final (step c) v is).clientSock = v.clientSock ∧ writesOn fd (runEvents c v is) = [] := by
  induction is generalizing v with
  | nil => exact ⟨rfl, rfl⟩
  | cons inp is ih =>
    obtain ⟨hinp, his⟩ := List.forall_mem_cons.mp h
    obtain ⟨hsock, hwrites⟩ := aside_step hl hv hinp
    obtain ⟨hsock', hwrites'⟩ := ih (step_settled hv inp) his
    have hevents : runEvents c v (inp :: is) =
        (step c v inp).2 ++ runEvents c (step c v inp).1 is := rfl
    rw [hevents, writesOn_append, hwrites]
    exact ⟨hsock'.trans hsock, hwrites'⟩

/-- A connection: nothing is written, and it is the last one accepted. -/
theorem accept_step {c : Setup} {v : Vars} (hrun : v.running = true) (fd : Int) :
    (step c v (.accept fd)).1.clientSock = fd ∧ writesOn fd (step c v (.accept fd)).2 = [] := by
  unfold step
  rw [if_pos hrun]
  by_cases hfd : fd < 0
  · rw [serve, if_pos hfd]
    exact ⟨rfl, rfl⟩
  · rw [serve, if_neg hfd]
    exact ⟨rfl, rfl⟩

/-- A request's answers go to the connection accepted last. -/
theorem writesOn_request {c : Setup} {o : Outcomes} {i : Int} {v : Vars}
    (hcmd : commandOf c (cstr v.buffer) = .userSetConfig) :
    writesOn v.clientSock (handle c o i v).events = verdicts (handle c o i v).events := by
  refine (writesOn_verdicts (fun j msg he => ?_) fun _ _ he => handle_verdict hcmd he).trans
    (if_pos rfl)
  rw [user_events hcmd] at he
  rcases List.mem_append.mp he with he | he
  · exact (userSetConfig_spec c o v).2.2 _ he
  · exact gates_not_reply he

/-- A client connects, the coordinator takes up `aside`, and a read brings `m` bytes of the
request. -/
def Asker.connects (a : Asker) (memory : Bytes) (m : Nat) (fd : Int) (aside : List Input)
    (o : Outcomes) : List Input :=
  .accept fd :: aside ++ [.read fd (some ((a.sent memory).take m)) o]

section Request

variable {c p : Setup} {n : Nat} (hpair : Paired c p n) (hjson : p.json.ReadsMessages)
  {text : Bytes} (htext : ConfigText p text) {o : Outcomes} {k : Talk} {w : Vars}
  (h : Conversation p n o k w text) {a : Asker} (hcmd : commandOf c a.message = .userSetConfig)
  (memory : Bytes) {m : Nat} (hm : a.message.length < m) (fd : Int)

include hm in
theorem Asker.read_ne_nil : some ((a.sent memory).take m) ≠ some [] := by
  intro hnil
  have htext := a.textOf_sent (startVars none) memory hm
  rw [hnil] at htext
  have hlong := a.message_long
  rw [← htext] at hlong
  revert hlong
  decide +kernel

include hcmd hm in
theorem Asker.taken (v : Vars) :
    commandOf c (textOf v (some ((a.sent memory).take m))) = .userSetConfig := by
  rw [a.textOf_sent v memory hm]
  exact hcmd

include hpair hjson htext h hcmd hm

/-- **What the request is answered with**: "success" where the round succeeds, and else nothing. -/
theorem request_writes {v : Vars} (hrun : v.running = true) (hs : Settled c v)
    (hcount : v.count = 0) (hnbd : v.nbdCount = 0) (hfile : v.dmbdConfig = some text)
    (hsock : v.clientSock = fd) :
    writesOn fd (step c v (.read fd (some ((a.sent memory).take m)) o)).2 =
      if Succeeds p o k w then [ascii "success"] else [] := by
  have htaken := Asker.taken hcmd memory hm v
  have hsettled : Settled c (afterRead v (some ((a.sent memory).take m))) :=
    hs.of_same ⟨rfl, rfl, rfl, rfl⟩
  rw [step_message hrun (a.read_ne_nil memory hm),
    ← round_verdicts hpair hjson htext h hsettled hcount hnbd hfile htaken fd,
    ← writesOn_request htaken]
  exact congrArg (fun i => writesOn i _) hsock.symm

variable {v : Vars} (hv : Between c v) {aside : List Input}
  (haside : ∀ t ∈ trace (step c) (step c v (.accept fd)).1 aside, Aside c fd t.before t.input)
  (hrun : (final (step c) v (.accept fd :: aside)).running = true)
  (hcount : (final (step c) v (.accept fd :: aside)).count = 0)
  (hnbd : (final (step c) v (.accept fd :: aside)).nbdCount = 0)
  (hfile : (final (step c) v (.accept fd :: aside)).dmbdConfig = some text)

include hrun hcount hfile

include hv haside hnbd in
/-- **What a client gets that connects and asks.** -/
theorem request_stream : stream fd (runEvents c v (a.connects memory m fd aside o)) =
    if Succeeds p o k w then ascii "success" else [] := by
  have hl : 2 ≤ c.serverLen := hpair.serverLen.ge
  have hrun₀ : v.running = true := running_of_final hrun
  obtain ⟨hsock, hnone⟩ := accept_step (c := c) hrun₀ fd
  obtain ⟨hsock', hnone'⟩ := aside_run hl aside (step_settled hv (.accept fd)) haside
  have hbetween : Between c (final (step c) v (.accept fd :: aside)) := final_between hv _
  have hwrites := request_writes hpair hjson htext h hcmd memory hm fd hrun (hbetween hrun) hcount
    hnbd hfile (hsock'.trans hsock)
  have hbefore : writesOn fd (runEvents c v (.accept fd :: aside)) = [] := by
    show writesOn fd ((step c v (.accept fd)).2 ++ runEvents c (step c v (.accept fd)).1 aside) = []
    rw [writesOn_append, hnone, hnone', List.append_nil]
  have hlast : runEvents c (final (step c) v (.accept fd :: aside))
      [.read fd (some ((a.sent memory).take m)) o] =
        (step c (final (step c) v (.accept fd :: aside))
          (.read fd (some ((a.sent memory).take m)) o)).2 := List.append_nil _
  rw [stream_eq_flatten, Asker.connects, runEvents_append, writesOn_append, hbefore, hlast, hwrites,
    List.nil_append]
  split_ifs
  · rfl
  · rfl

/-- **What the request leaves** where the round succeeds. -/
theorem request_agreed (hsucc : Succeeds p o k w) :
    Agreed c p o k w text (final (step c) v (a.connects memory m fd aside o))
      (runEvents c v (a.connects memory m fd aside o)) := by
  obtain ⟨hown, hpeer, remote, hread, hattached⟩ := step_agreed hpair hjson htext h hsucc hrun
    hcount hfile (a.read_ne_nil memory hm) (Asker.taken hcmd memory hm _) fd
  rw [Asker.connects, final_append, runEvents_append]
  refine ⟨hown, hpeer, remote, hread, fun own hlast => ?_⟩
  obtain ⟨hinsmod, hserver, hclient, hsections⟩ := hattached own hlast
  exact ⟨hinsmod, hserver, List.mem_append_right _ (List.mem_append_left _ hclient), hsections⟩

end Request

namespace Delivery

variable {bytes : Bytes}

/-- The wait tells `w` after one of the reads that bring something. Where the connection stays open
no other read returns. -/
def TellsOpen (d : Delivery bytes) (w : Verdict) : Prop :=
  ∃ k < d.reads.length, (Wait.read^[k + 1] d.start).told = some w ∧
    ∀ j < k, (Wait.read^[j + 1] d.start).told = none

/-- It is what shows. -/
theorem tellsOpen_iff (d : Delivery bytes) (w : Verdict) : d.TellsOpen w ↔ d.Shows w := by
  constructor
  · rintro ⟨k, hk, htold, hbefore⟩
    refine ⟨k, hk, ?_, fun j hj => ?_⟩
    · rw [← buf_iterate]
      exact Wait.told_eq_some.mp htold
    · rw [← buf_iterate]
      exact Wait.told_eq_none.mp (hbefore j hj) _
  · intro h
    obtain ⟨j, htold, hbefore⟩ := returns_iff.mp (tells_of_shows h)
    obtain ⟨k, hk, htext, _⟩ := h
    refine ⟨j, ?_, htold, hbefore⟩
    -- it is told by the time it shows
    by_contra hj
    have hnone := Wait.told_eq_none.mp (hbefore k (by omega)) w
    rw [buf_iterate] at hnone
    exact hnone htext

/-- Where nothing comes nothing shows. -/
theorem not_shows_nil (d : Delivery bytes) (hnil : bytes = []) (w : Verdict) : ¬ d.Shows w := by
  rintro ⟨k, hk, _⟩
  obtain ⟨r, hr⟩ := List.exists_mem_of_length_pos (Nat.zero_lt_of_lt hk)
  exact (d.read_size r hr).1 (List.flatten_eq_nil_iff.mp (d.whole.trans hnil) r hr)

/-- Where nothing comes and the connection ends, the wait compares what `buf` held. -/
theorem tells_nothing (d : Delivery bytes) (hnil : bytes = []) (v : Verdict) :
    d.start.Tells v ↔ cstr d.before = v.text := by
  have hreads : d.reads = [] := by
    refine List.eq_nil_iff_forall_not_mem.mpr fun r hr => (d.read_size r hr).1 ?_
    exact List.flatten_eq_nil_iff.mp (d.whole.trans hnil) r hr
  have hbuf : ∀ k, d.bufAfter k = d.before := by
    intro k
    unfold bufAfter
    rw [hreads, List.take_nil]
    rfl
  constructor
  · intro h
    obtain ⟨k, hk, _⟩ := returns_iff.mp h
    rwa [Wait.told_eq_some, buf_iterate, hbuf] at hk
  · intro h
    refine returns_iff.mpr ⟨0, ?_, fun j hj => absurd hj j.not_lt_zero⟩
    rw [Wait.told_eq_some, buf_iterate, hbuf]
    exact h

/-- A "success" that one read brings shows over a NUL only, and nothing else does. -/
theorem shows_once (d : Delivery bytes) (hbytes : bytes = ascii "success")
    (honce : d.reads.length ≤ 1) (v : Verdict) :
    d.Shows v ↔ v = .success ∧ d.before[7]? = some 0 := by
  have hne : bytes ≠ [] := by
    rw [hbytes]
    decide +kernel
  obtain ⟨r, hr⟩ := List.length_eq_one_iff.mp (Nat.le_antisymm honce (d.reads_pos hne))
  have hread : r = ascii "success" := by
    rw [← hbytes, ← d.whole, hr, List.flatten_singleton]
  have hbuf : d.bufAfter (0 + 1) = overlay d.before Verdict.success.encode := by
    unfold bufAfter
    rw [hr, hread]
    rfl
  have hshows : d.Shows v ↔ cstr (overlay d.before Verdict.success.encode) = v.text := by
    unfold Shows
    rw [← hbuf, hr]
    constructor
    · rintro ⟨k, hk, htext, _⟩
      obtain rfl : k = 0 := Nat.lt_one_iff.mp hk
      exact htext
    · exact fun htext => ⟨0, Nat.one_pos, htext, fun j hj => absurd hj j.not_lt_zero⟩
  rw [hshows]
  cases v with
  | success =>
    have hfits := cstr_overlay_encode d.sized .success
    rw [imp_iff_right rfl] at hfits
    rw [and_iff_right rfl]
    exact hfits
  | unsuccess =>
    refine iff_of_false (fun htext => ?_) fun hv => nomatch hv.1
    -- the first bytes differ
    have hfree : NulFree (ascii "success") := by decide +kernel
    have hcut : cstr (overlay d.before Verdict.success.encode) =
        ascii "success" ++ cstr (d.before.drop (ascii "success").length) :=
      cstr_append_of_nulFree hfree _
    rw [hcut] at htext
    have hhead := congrArg List.head? htext
    rw [List.head?_append] at hhead
    revert hhead
    have hs : (ascii "success").head? = some 115 := by decide +kernel
    have hu : Verdict.unsuccess.text.head? = some 117 := by decide +kernel
    rw [hs, hu, Option.some_or]
    decide

end Delivery

/-- **A request from end to end.** From every state that a run leaves the coordinator in and every
state of its peer, with messages on other connections before the request is read: as long as its
connection is open the client tells what shows in its `buf` where the round succeeds, and else
nothing; when the connection ends after a round that failed it tells what `buf` held before. A
"success" that comes whole is told over a NUL. Where the round succeeds coordinator and peer
agree. -/
theorem request_answered (c p : Setup) (n : Nat) (hpair : Paired c p n) (d : Dialect)
    (int64 : Bytes → UInt64) (hjson : ReadsJson c.json d int64) (v₀ : Vars) (h₀ : v₀.Start c)
    (is : List Input) (fd : Int) (aside : List Input)
    (haside : ∀ t ∈ trace (step c) (final (step c) v₀ (is ++ [.accept fd])) aside,
      Aside c fd t.before t.input)
    (hrun : (final (step c) v₀ (is ++ .accept fd :: aside)).running = true) (text : Bytes)
    (hfile : (final (step c) v₀ (is ++ .accept fd :: aside)).dmbdConfig = some text)
    (htext : ConfigText p text) (a : Asker) (hspoken : a.Spoken d) (memory : Bytes) (m : Nat)
    (hm : a.message.length < m) (o : Outcomes) (k : Talk) (w : Vars)
    (h : Conversation p n o k w text)
    (dl : Delivery (stream fd
      (runEvents c (final (step c) v₀ is) (a.connects memory m fd aside o)))) :
    (∀ v, dl.TellsOpen v ↔ Succeeds p o k w ∧ dl.Shows v) ∧
    (∀ v, dl.start.Tells v ↔
      if Succeeds p o k w then dl.Shows v else cstr dl.before = v.text) ∧
    (Succeeds p o k w → dl.reads.length ≤ 1 → ∀ v, dl.Shows v ↔
      v = .success ∧ dl.before[7]? = some 0) ∧
    (Succeeds p o k w → Agreed c p o k w text
      (final (step c) v₀ (is ++ a.connects memory m fd aside o))
      (runEvents c (final (step c) v₀ is) (a.connects memory m fd aside o))) := by
  obtain ⟨hcount, hnbd⟩ := idle_of_start hpair.serverLen h₀ (is ++ .accept fd :: aside) hrun
  have hmessages : p.json.ReadsMessages := by
    rw [hpair.json]
    exact readsMessages_of_readsJson hjson
  have hv : Between c (final (step c) v₀ is) := final_between h₀.between is
  have hcmd := a.command hjson hspoken
  rw [final_append] at hrun hfile hcount hnbd haside
  have hstream := request_stream hpair hmessages htext h hcmd memory hm fd hv haside hrun hcount
    hnbd hfile
  have hne : ascii "success" ≠ [] := by decide +kernel
  refine ⟨fun v => ?_, fun v => ?_, fun hsucc honce v => ?_, fun hsucc => ?_⟩
  · rw [dl.tellsOpen_iff]
    refine (and_iff_right_of_imp fun hshows => ?_).symm
    by_contra hno
    rw [if_neg hno] at hstream
    exact dl.not_shows_nil hstream v hshows
  · by_cases hsucc : Succeeds p o k w
    · rw [if_pos hsucc] at hstream ⊢
      exact ⟨Delivery.shows_of_tells (hstream ▸ hne), Delivery.tells_of_shows⟩
    · rw [if_neg hsucc] at hstream ⊢
      exact dl.tells_nothing hstream v
  · rw [if_pos hsucc] at hstream
    exact dl.shows_once hstream honce v
  · rw [final_append]
    exact request_agreed hpair hmessages htext h hcmd memory hm fd hrun hcount hfile hsucc

/-! ## Two servers -/

/-- Two servers whose json-c reads the texts themselves. -/
def readingServer : Setup := twoServers jsonReader

/-- The peer of `readingServer`. -/
def readingPeer : Setup := setupOf jsonReader (ascii "10.0.0.2") [ascii "10.0.0.1"]

theorem reading_conversation :
    Conversation readingPeer 1 allOk roundTalk (startVars none) pairConfig := by
  refine ⟨rfl, rfl, rfl, ?_, ?_, ?_, ⟨rfl, ?_⟩, ?_, ?_⟩
  · decide +kernel
  · decide +kernel
  · decide +kernel
  · decide +kernel
  · decide +kernel
  · refine List.forall_mem_cons.mpr ⟨?_, fun _ h => absurd h List.not_mem_nil⟩
    rintro i r o ⟨⟩

/-- "active" and "4096" -/
def activeAsker : Asker :=
  .client ⟨ascii "active", by decide +kernel, by decide +kernel⟩
    ⟨ascii "4096", by decide +kernel, by decide +kernel⟩

/-- `CONTROLLER_SET_CONFIG` on another connection, before the request is read. -/
def otherMessage : List Input := [.read 7 (some controllerCmd) allOk]

/-- The answer, read at once into a `buf` of zeros. -/
def overZeros : Delivery (stream 4 (runEvents readingServer (startVars (some pairConfig))
    (activeAsker.connects [] 1024 4 otherMessage allOk))) where
  before := List.replicate bufSize 0
  reads := [Verdict.success.encode]
  sized := List.length_replicate
  read_size := by decide
  whole := by decide +kernel

/-- It is told, and the peer has the configuration. -/
theorem request_answered_two :
    overZeros.start.Tells .success ∧
      (roundTalk.atEnd readingPeer (startVars none) pairConfig).dmbdConfig = some pairConfig := by
  have hsucc : Succeeds readingPeer allOk roundTalk (startVars none) := by decide +kernel
  have haside : ∀ t ∈ trace (step readingServer) (final (step readingServer)
      (startVars (some pairConfig)) ([] ++ [.accept 4])) otherMessage,
      Aside readingServer 4 t.before t.input := by
    refine List.forall_mem_cons.mpr ⟨?_, fun _ h => absurd h List.not_mem_nil⟩
    exact ⟨7, some controllerCmd, allOk, rfl, by decide, fun _ => by decide +kernel⟩
  obtain ⟨_, htells, hshows, hagreed⟩ := request_answered readingServer readingPeer 1
    ⟨by decide, by decide +kernel, by decide +kernel, rfl⟩ strictJson (fun _ => 0) (fun _ => rfl)
    (startVars (some pairConfig)) (startVars_start _ _ _ _) [] 4 otherMessage haside
    (by decide +kernel) pairConfig (by decide +kernel)
    ⟨by decide +kernel, by decide +kernel, by decide +kernel⟩ activeAsker
    ⟨by decide +kernel, by decide +kernel⟩ [] 1024 (by decide +kernel) allOk roundTalk
    (startVars none) reading_conversation overZeros
  refine ⟨(htells .success).mpr ?_, (hagreed hsucc).peerFile⟩
  rw [if_pos hsucc]
  exact (hshows hsucc (Nat.le_refl 1) .success).mpr ⟨rfl, by decide⟩

end JcmController.Client
