import JcmController.Controller.Success
import JcmController.Lib.Poll

/-!
# The client's wait

`client.c` and `jcm_cliet.c` end in the same loop: read into `buf`, compare it with "success" and
with "unsuccess", read again; in `client_mount.c` it is commented out. The controller writes the
first without its NUL. A read that returns nothing is no way out.

* `verdict_encoded`: what the verdicts of the controller look like on the wire.
* **`wait_tells_iff`**: the loop ends and tells the verdict that was written when there is one kind
  of it, and its text and a NUL stand in `buf` after some read, before those of the other.
* `wait_alone`: a verdict that comes alone and whole.
* `wait_never_ends`: a "success" over an older byte, and a stream without a verdict.
-/

namespace JcmController.Client

open JcmController.Lib JcmController.Controller

/-! ## The verdicts -/

inductive Verdict where
  | success
  | unsuccess
  deriving DecidableEq, Repr

namespace Verdict

/-- The text that `buf` is compared with. -/
def text : Verdict → Bytes
  | success => ascii "success"
  | unsuccess => ascii "unsuccess"

/-- What `main` writes. -/
def encode : Verdict → Bytes
  | success => ascii "success"
  | unsuccess => ascii "unsuccess" ++ [0]

def other : Verdict → Verdict
  | success => unsuccess
  | unsuccess => success

theorem eq_or_eq_other (w w' : Verdict) : w' = w ∨ w' = w.other := by
  cases w <;> cases w' <;> decide

theorem other_ne (w : Verdict) : w.other ≠ w := by
  cases w <;> decide

theorem encode_inj {w w' : Verdict} (h : w.encode = w'.encode) : w = w' := by
  revert h
  cases w <;> cases w' <;> decide

theorem encode_ne_nil (w : Verdict) : w.encode ≠ [] := by
  cases w <;> decide

end Verdict

theorem gates_encoded {c : Setup} {o : Outcomes} {v : Vars} {fd : Int} {msg : Bytes}
    (he : .verdict fd msg ∈ (gates c o v).events) : ∃ w : Verdict, msg = w.encode := by
  rcases Done.mem_andThen.mp he with he | ⟨_, he⟩
  · rcases Done.mem_andThen.mp he with he | ⟨_, he⟩
    · exact absurd ⟨fd, msg, rfl⟩ (mem_countGate he).not_verdict
    · cases mem_nbdGate he
      exact ⟨.success, rfl⟩
  · cases mem_unsuccessGate he
    exact ⟨.unsuccess, rfl⟩

/-- **The verdicts on the wire.** -/
theorem verdict_encoded {c : Setup} {v : Vars} {inp : Input} {fd : Int} {msg : Bytes}
    (he : .verdict fd msg ∈ (step c v inp).2) : ∃ w : Verdict, msg = w.encode := by
  obtain ⟨i, r, o, rfl, hrun, hr, he⟩ :=
    notPlain_of_mem_step he fun hp => hp.not_verdict ⟨fd, _, rfl⟩
  rcases Done.mem_andThen.mp he with he | ⟨_, he⟩
  · -- a handler writes none
    exfalso
    by_cases hcmd : commandOf c (cstr (afterRead v r).buffer) = .userSetConfig
    · unfold handler at he
      rw [hcmd] at he
      exact ((userSetConfig_spec c o _).2.2 _ he).not_verdict ⟨fd, _, rfl⟩
    · exact ((handler_still hcmd).2 _ he).not_verdict ⟨fd, _, rfl⟩
  · exact gates_encoded he

/-! ## The connection -/

/-- The events of a run. -/
def runEvents (c : Setup) (v : Vars) (inputs : List Input) : List Event :=
  (trace (step c) v inputs).flatMap Taken.events

/-- What is written to a connection. -/
def writesTo (fd : Int) : Event → Bytes
  | .reply i msg => if i = fd then msg else []
  | .verdict i msg => if i = fd then msg else []
  | _ => []

/-- The bytes that its other end gets. -/
def stream (fd : Int) (es : List Event) : Bytes := es.flatMap (writesTo fd)

/-- `w` was written to it. -/
def Carries (fd : Int) (es : List Event) (w : Verdict) : Prop := .verdict fd w.encode ∈ es

/-- `w` was written to it, and no other verdict. -/
def CarriesOnly (fd : Int) (es : List Event) (w : Verdict) : Prop :=
  Carries fd es w ∧ ∀ msg, .verdict fd msg ∈ es → msg = w.encode

theorem stream_ne_nil {fd : Int} {es : List Event} {w : Verdict} (h : Carries fd es w) :
    stream fd es ≠ [] := by
  intro hnil
  have hw : (if fd = fd then w.encode else []) = [] := List.flatMap_eq_nil_iff.mp hnil _ h
  rw [if_pos rfl] at hw
  exact w.encode_ne_nil hw

theorem carriesOnly_iff {c : Setup} {v : Vars} {inputs : List Input} {fd : Int} {w : Verdict} :
    CarriesOnly fd (runEvents c v inputs) w ↔
      Carries fd (runEvents c v inputs) w ∧ ¬ Carries fd (runEvents c v inputs) w.other := by
  refine and_congr_right fun _ => ⟨fun h hother => ?_, fun h msg hmsg => ?_⟩
  · exact w.other_ne (Verdict.encode_inj (h _ hother))
  · obtain ⟨t, ht, he⟩ := List.mem_flatMap.mp hmsg
    rw [events_of_mem_trace ht] at he
    obtain ⟨w', rfl⟩ := verdict_encoded he
    rcases w.eq_or_eq_other w' with rfl | rfl
    · rfl
    · exact absurd hmsg h

/-! ## The loop -/

/-- `sizeof(buf)` -/
def bufSize : Nat := 1024

/-- `buf`, and the bytes that reads have yet to return; after them `read` returns 0 or -1. -/
structure Wait where
  reads : List Bytes
  buf : Bytes

/-- `read(client_sock, buf, sizeof(buf))` -/
def Wait.read (s : Wait) : Wait := ⟨s.reads.tail, readInto bufSize s.buf s.reads.head?⟩

/-- The two `strcmp`. -/
def Wait.told (s : Wait) : Option Verdict :=
  if cstr s.buf = ascii "success" then some .success
  else if cstr s.buf = ascii "unsuccess" then some .unsuccess
  else none

/-- The wait of `msg_send` ends by telling `w`. -/
def Wait.Tells (s : Wait) (w : Verdict) : Prop := Returns Wait.read Wait.told s w

theorem Wait.told_eq_some {s : Wait} {w : Verdict} : s.told = some w ↔ cstr s.buf = w.text := by
  unfold Wait.told
  by_cases h : cstr s.buf = ascii "success"
  · rw [if_pos h, h]
    cases w <;> decide
  · rw [if_neg h]
    by_cases h' : cstr s.buf = ascii "unsuccess"
    · rw [if_pos h', h']
      cases w <;> decide
    · rw [if_neg h']
      refine iff_of_false (by simp) fun hw => ?_
      cases w with
      | success => exact h hw
      | unsuccess => exact h' hw

theorem Wait.told_eq_none {s : Wait} : s.told = none ↔ ∀ w : Verdict, cstr s.buf ≠ w.text := by
  rw [Option.eq_none_iff_forall_ne_some]
  exact forall_congr' fun w => not_congr Wait.told_eq_some

/-- A stream on its way into `buf`: what `buf` held, and the reads that the stream was cut into. -/
structure Delivery (bytes : Bytes) where
  before : Bytes
  reads : List Bytes
  sized : before.length = bufSize
  read_size : ∀ r ∈ reads, r ≠ [] ∧ r.length ≤ bufSize
  whole : reads.flatten = bytes

namespace Delivery

variable {bytes : Bytes}

def start (d : Delivery bytes) : Wait := ⟨d.reads, d.before⟩

/-- `buf` after `k` reads. -/
def bufAfter (d : Delivery bytes) (k : Nat) : Bytes := (d.reads.take k).foldl overlay d.before

/-- The text of `w` and a NUL stand in `buf` after some read, and after none before it those of the
other verdict. -/
def Shows (d : Delivery bytes) (w : Verdict) : Prop :=
  ∃ k < d.reads.length, cstr (d.bufAfter (k + 1)) = w.text ∧
    ∀ j < k, cstr (d.bufAfter (j + 1)) ≠ w.other.text

theorem iterate_read (rs : List Bytes) (hsize : ∀ r ∈ rs, r.length ≤ bufSize) (b : Bytes) :
    ∀ k, Wait.read^[k] ⟨rs, b⟩ = ⟨rs.drop k, (rs.take k).foldl overlay b⟩ := by
  intro k
  induction k generalizing rs b with
  | zero => rfl
  | succ k ih =>
    rw [Function.iterate_succ_apply]
    cases rs with
    | nil =>
      have hread : Wait.read ⟨[], b⟩ = ⟨[], b⟩ := rfl
      rw [hread, ih [] hsize b, List.drop_nil, List.drop_nil, List.take_nil, List.take_nil]
    | cons r rs =>
      obtain ⟨hr, hrs⟩ := List.forall_mem_cons.mp hsize
      have hread : Wait.read ⟨r :: rs, b⟩ = ⟨rs, overlay b r⟩ := by
        show Wait.mk rs (overlay b (r.take bufSize)) = _
        rw [List.take_of_length_le hr]
      rw [hread, ih rs hrs]
      rfl

theorem buf_iterate (d : Delivery bytes) (k : Nat) :
    (Wait.read^[k] d.start).buf = d.bufAfter k := by
  unfold start
  rw [iterate_read d.reads (fun r hr => (d.read_size r hr).2)]
  rfl

/-- After the last read nothing changes. -/
theorem bufAfter_of_le (d : Delivery bytes) {k : Nat} (h : d.reads.length ≤ k) :
    d.bufAfter k = d.bufAfter d.reads.length := by
  unfold bufAfter
  rw [List.take_of_length_le h, List.take_length]

theorem reads_pos (d : Delivery bytes) (h : bytes ≠ []) : 0 < d.reads.length := by
  refine List.length_pos_of_ne_nil fun hnil => h ?_
  rw [← d.whole, hnil]
  rfl

/-- What is told while there are bytes to read shows. -/
theorem shows_of_tells {d : Delivery bytes} {w : Verdict} (hne : bytes ≠ [])
    (h : d.start.Tells w) : d.Shows w := by
  obtain ⟨k, hk, hbefore⟩ := returns_iff.mp h
  have hpos := d.reads_pos hne
  have hlt : k < d.reads.length := by
    -- later than the last read nothing is told that was not told after it
    by_contra hle
    have hlast := hbefore (d.reads.length - 1) (by omega)
    have hk' := Wait.told_eq_some.mp hk
    rw [buf_iterate, d.bufAfter_of_le (by omega)] at hk'
    refine Wait.told_eq_none.mp hlast w ?_
    rwa [buf_iterate, Nat.sub_add_cancel hpos]
  refine ⟨k, hlt, ?_, fun j hj => ?_⟩
  · rw [← buf_iterate]
    exact Wait.told_eq_some.mp hk
  · rw [← buf_iterate]
    exact Wait.told_eq_none.mp (hbefore j hj) _

/-- What shows is told. -/
theorem tells_of_shows {d : Delivery bytes} {w : Verdict} (h : d.Shows w) : d.start.Tells w := by
  obtain ⟨k, _, hk, hbefore⟩ := h
  have htold : (Wait.read^[k + 1] d.start).told = some w := by
    rw [Wait.told_eq_some, buf_iterate]
    exact hk
  have hsome : (Wait.read^[k + 1] d.start).told ≠ none := by
    rw [htold]
    exact Option.some_ne_none w
  obtain ⟨j, hj, w', hw', hret⟩ := exists_returns hsome
  rcases w.eq_or_eq_other w' with rfl | rfl
  · exact hret
  · rcases Nat.lt_or_eq_of_le hj with hlt | rfl
    · rw [Wait.told_eq_some, buf_iterate] at hw'
      exact absurd hw' (hbefore j hlt)
    · exact absurd (Option.some.inj (htold.symm.trans hw')).symm w.other_ne

end Delivery

/-- The wait ends, and what it tells is what was written. -/
def Faithful (s : Wait) (fd : Int) (es : List Event) : Prop :=
  (∃ w, s.Tells w) ∧ ∀ w, s.Tells w ↔ Carries fd es w

/-- **The wait ends with the verdict** when the controller wrote one kind of it and it shows. -/
theorem wait_tells_iff (c : Setup) (v : Vars) (inputs : List Input) (fd : Int)
    (d : Delivery (stream fd (runEvents c v inputs))) :
    Faithful d.start fd (runEvents c v inputs) ↔
      ∃ w, CarriesOnly fd (runEvents c v inputs) w ∧ d.Shows w := by
  constructor
  · rintro ⟨⟨w, hw⟩, htells⟩
    have hcarries := (htells w).mp hw
    refine ⟨w, carriesOnly_iff.mpr ⟨hcarries, fun hother => ?_⟩,
      Delivery.shows_of_tells (stream_ne_nil hcarries) hw⟩
    exact w.other_ne (Returns.unique ((htells w.other).mpr hother) hw)
  · rintro ⟨w, honly, hshows⟩
    have hw := Delivery.tells_of_shows hshows
    obtain ⟨hcarries, hother⟩ := carriesOnly_iff.mp honly
    refine ⟨⟨w, hw⟩, fun w' => ?_⟩
    rcases w.eq_or_eq_other w' with rfl | rfl
    · exact iff_of_true hw hcarries
    · exact iff_of_false (fun h => w.other_ne (Returns.unique h hw)) hother

/-! ## A verdict alone -/

theorem cstr_eq_nil_iff {buf : Bytes} (h : buf ≠ []) : cstr buf = [] ↔ buf[0]? = some 0 := by
  cases buf with
  | nil => exact absurd rfl h
  | cons b buf =>
    unfold cstr
    rw [List.takeWhile_cons, List.getElem?_cons_zero]
    by_cases hb : b = 0
    · simp [hb]
    · simp [hb]

/-- The text of a verdict that one read brought whole. -/
theorem cstr_overlay_encode {buf : Bytes} (hbuf : buf.length = bufSize) (w : Verdict) :
    cstr (overlay buf w.encode) = w.text ↔ (w = .success → buf[7]? = some 0) := by
  cases w with
  | success =>
    have hfree : NulFree (ascii "success") := by decide +kernel
    have hlen : (ascii "success").length = 7 := by decide +kernel
    have hne : buf.drop 7 ≠ [] := by
      refine List.ne_nil_of_length_pos ?_
      rw [List.length_drop, hbuf]
      decide
    rw [imp_iff_right rfl]
    show cstr (ascii "success" ++ buf.drop (ascii "success").length) = ascii "success" ↔ _
    rw [cstr_append_of_nulFree hfree, List.append_right_eq_self, hlen, cstr_eq_nil_iff hne,
      List.getElem?_drop]
  | unsuccess =>
    refine iff_of_true ?_ fun h => by cases h
    show cstr (ascii "unsuccess" ++ [0] ++ buf.drop _) = ascii "unsuccess"
    rw [List.append_assoc]
    exact cstr_append_zero_cons (by decide +kernel) _

/-- **A verdict that comes alone and whole** is told, the "success" only over a NUL. -/
theorem wait_alone {c : Setup} {v : Vars} {inputs : List Input} {fd : Int} {w : Verdict}
    (d : Delivery (stream fd (runEvents c v inputs)))
    (hw : CarriesOnly fd (runEvents c v inputs) w) (hreads : d.reads = [w.encode]) :
    Faithful d.start fd (runEvents c v inputs) ↔ (w = .success → d.before[7]? = some 0) := by
  have hbuf : d.bufAfter (0 + 1) = overlay d.before w.encode := by
    unfold Delivery.bufAfter
    rw [hreads]
    rfl
  rw [wait_tells_iff, ← cstr_overlay_encode d.sized, ← hbuf]
  constructor
  · rintro ⟨w', hw', k, hk, htext, _⟩
    rw [hreads] at hk
    obtain rfl : k = 0 := Nat.lt_one_iff.mp hk
    rwa [← Verdict.encode_inj (hw.2 _ hw'.1)]
  · intro htext
    refine ⟨w, hw, 0, ?_, htext, fun j hj => absurd hj j.not_lt_zero⟩
    rw [hreads]
    exact Nat.one_pos

/-! ## Without an end -/

/-- The controller of two servers that accepts a client and answers its request. -/
def requestEvents : List Event :=
  runEvents (twoServers pairJson) (startVars (some pairConfig)) [.accept 4, userInput 4]

/-- Its "success", read at once into a `buf` of ones. -/
def overOnes : Delivery (stream 4 requestEvents) where
  before := List.replicate 1024 1
  reads := [ascii "success"]
  sized := List.length_replicate
  read_size := by decide
  whole := by decide +kernel

/-- The controller that accepts a client and closes the connection. -/
def closedEvents : List Event :=
  runEvents (twoServers pairJson) (startVars (some pairConfig)) [.accept 4, .read 4 (some []) allOk]

/-- Nothing was sent. -/
def nothing : Delivery (stream 4 closedEvents) where
  before := List.replicate 1024 0
  reads := []
  sized := List.length_replicate
  read_size := by decide
  whole := by decide +kernel

/-- Neither wait ends. -/
theorem wait_never_ends :
    Carries 4 requestEvents .success ∧ (¬ ∃ w, overOnes.start.Tells w) ∧
      ¬ ∃ w, nothing.start.Tells w := by
  refine ⟨?_, ?_, ?_⟩
  · show .verdict 4 Verdict.success.encode ∈ requestEvents
    decide +kernel
  · rintro ⟨w, hw⟩
    have hne : stream 4 requestEvents ≠ [] := by
      rw [← overOnes.whole]
      decide
    obtain ⟨k, hk, htext, _⟩ := Delivery.shows_of_tells hne hw
    obtain rfl : k = 0 := Nat.lt_one_iff.mp hk
    revert htext
    cases w <;> decide +kernel
  · rintro ⟨w, hw⟩
    obtain ⟨k, hk, _⟩ := returns_iff.mp hw
    rw [Wait.told_eq_some, Delivery.buf_iterate] at hk
    have hbuf : nothing.bufAfter (k + 1) = nothing.before := rfl
    rw [hbuf] at hk
    revert hk
    cases w <;> decide

end JcmController.Client
