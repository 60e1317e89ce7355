import JcmController.Controller.Json
import JcmController.Heartbeat.FirstNotice

/-!
# The fields that `ReadServerConfig` leaves out

`ReadServerConfig` gets its records from `malloc` and sets four of their fields. The heartbeat reads
three others: `hb_time` in every round, `disconnect` where a peer is heard, and `teng_ip` in every
notification.

* `Junk` is what `malloc` left in the three, `Boot.outputs` the files and the notifications of a
  heartbeat that starts with it.
* `host_map`: what two starts over the same document have in common.
* **`junk_free_iff`**: the outputs do not depend on the junk exactly when no junk leads to a
  notification.
-/

namespace JcmController.Heartbeat

open JcmController.Lib
open JcmController.Controller (Json JsonC objectGetEx)

/-! ## `ReadServerConfig` -/

/-- What `malloc` left in the fields of a record that `ReadServerConfig` does not set. A `teng_ip`
that points to no string is `none`. -/
structure Junk where
  tengIp : Option Bytes
  hbTime : Int64
  disconnect : Int32

/-- The body of its loop. A record without `ip` or `hb_port` ends the process in `strcmp` or
`atoi`. -/
def readServerEntry (jc : JsonC) (new : Option Json) (j : Junk) : Option ServerNode := do
  let ip ← jc.getString (objectGetEx new (ascii "ip"))
  let hbPort ← jc.getString (objectGetEx new (ascii "hb_port"))
  let gateway := jc.getString (objectGetEx new (ascii "gateway"))
  return ⟨ip, hbPort, gateway, j.tengIp, j.hbTime.toInt, j.disconnect.toInt⟩

/-- Its loop, from entry `n` on. -/
def readServerEntries (jc : JsonC) (junk : Nat → Junk) :
    List (Option Json) → Nat → Option (List ServerNode)
  | [], _ => some []
  | new :: news, n => do
    let node ← readServerEntry jc new (junk n)
    let nodes ← readServerEntries jc junk news (n + 1)
    return node :: nodes

/-- `ReadServerConfig` of a file with this contents, over what `malloc` left there. -/
def readServerConfig (jc : JsonC) (junk : Nat → Junk) (file : Option Bytes) :
    Option (List ServerNode) :=
  match objectGetEx (jc.fromFile file) (ascii "server") with
  | some (.arr elems) => readServerEntries jc junk elems 0
  | _ => none

/-- `check_my_node` -/
def checkMyNode (serv : List ServerNode) (myIp : Bytes) : Option ServerNode :=
  serv.find? fun s => s.ip = myIp

/-- What a controller is started with: `server_config` holds `file`, `argv[1]` is `ip`. -/
structure Boot where
  proc : Process
  wild : Int → Bool
  json : JsonC
  file : Option Bytes
  ip : Bytes

/-- What `main` then fixes, over what `malloc` left. `none` is a process that does not get to its
heartbeat. -/
def Boot.host (b : Boot) (junk : Nat → Junk) : Option Host :=
  (readServerConfig b.json junk b.file).bind fun serv =>
    match h : checkMyNode serv b.ip with
    | none => none
    | some my => some ⟨b.proc, serv, my, List.mem_of_find?_eq_some h, b.wild⟩

/-! ## The heartbeat that follows -/

/-- `hb_start`, and the rounds of the receiver if it comes to its end. -/
def heartbeat (h : Host) (fopen : Nat → Bool) (before : Option HbState) (Rs : List Round) :
    List Event :=
  let r := hbStart h fopen before
  r.events ++ if r.exit = .go then runEvents h ⟨h.serverConfig, r.state, true⟩ Rs else []

/-- The outputs of a heartbeat that is started with this junk. -/
def Boot.outputs (b : Boot) (junk : Nat → Junk) (fopen : Nat → Bool) (before : Option HbState)
    (Rs : List Round) : List Event :=
  ((b.host junk).map fun h => Heartbeat.outputs (heartbeat h fopen before Rs)).getD []

/-! ## `hb_start` -/

/-- `hb_start` looks at the ips only. -/
theorem hbStartLoop_congr (fopen : Nat → Bool) :
    ∀ {nodes nodes' : List ServerNode} (i : Nat) (obj : HbState) (file : Option HbState),
      nodes'.map ServerNode.ip = nodes.map ServerNode.ip →
        hbStartLoop fopen nodes' i obj file = hbStartLoop fopen nodes i obj file
  | [], [], _, _, _, _ => rfl
  | node :: nodes, node' :: nodes', i, obj, file, hips => by
    obtain ⟨hip, hips'⟩ := List.cons.inj hips
    unfold hbStartLoop
    rw [hip]
    by_cases ho : fopen i = true
    · simp only [if_pos ho, Done.ok_andThen, hbStartLoop_congr fopen (i + 1) _ _ hips']
    · simp only [if_neg ho]

/-- It comes to its end if each `fopen` succeeds, and has then written "connect" for each ip. -/
theorem hbStartLoop_go (fopen : Nat → Bool) :
    ∀ (nodes : List ServerNode) (i : Nat) (obj : HbState) (file : Option HbState),
      ((hbStartLoop fopen nodes i obj file).exit = .go ↔
        ∀ k < nodes.length, fopen (i + k) = true) ∧
      ((hbStartLoop fopen nodes i obj file).exit = .go → (nodes = [] → file = some obj) →
        ∃ st, (hbStartLoop fopen nodes i obj file).state = some st ∧
          (∀ ip, obj.get? ip = some (ascii "connect") → st.get? ip = some (ascii "connect")) ∧
          Connected st nodes)
  | [], _, obj, _ =>
    ⟨iff_of_true rfl fun k hk => absurd hk (Nat.not_lt_zero k),
      fun _ hfile => ⟨obj, hfile rfl, fun _ h => h, fun _ hn => absurd hn List.not_mem_nil⟩⟩
  | node :: nodes, i, obj, file => by
    obtain ⟨hgo, hend⟩ := hbStartLoop_go fopen nodes (i + 1) (obj.add node.ip (ascii "connect"))
      (some (obj.add node.ip (ascii "connect")))
    unfold hbStartLoop
    by_cases ho : fopen i = true
    · simp only [if_pos ho, Done.ok_andThen]
      constructor
      · rw [hgo]
        constructor
        · intro h k hk
          cases k with
          | zero => exact ho
          | succ k =>
            rw [show i + (k + 1) = i + 1 + k by omega]
            exact h k (Nat.lt_of_succ_lt_succ hk)
        · intro h k hk
          rw [show i + 1 + k = i + (k + 1) by omega]
          exact h (k + 1) (Nat.succ_lt_succ hk)
      · intro hx _
        obtain ⟨st, hst, hkeep, hconn⟩ := hend hx fun _ => rfl
        refine ⟨st, hst, fun ip hip => hkeep ip ?_, List.forall_mem_cons.mpr ⟨hkeep _ ?_, hconn⟩⟩
        · rw [Assoc.get?_add]
          split_ifs
          · rfl
          · exact hip
        · rw [Assoc.get?_add, if_pos rfl]
    · simp only [if_neg ho]
      exact ⟨iff_of_false Exit.noConfusion fun h => ho (h 0 (Nat.succ_pos _)), Exit.noConfusion⟩

/-! ## Two runs -/

section Documents

variable {α : Type} (f : ServerNode → α)

/-- What the records have in common whatever `malloc` left. -/
theorem readServerEntries_map {jc : JsonC} {junk junk' : Nat → Junk}
    (hf : ∀ new n,
      (readServerEntry jc new (junk' n)).map f = (readServerEntry jc new (junk n)).map f) :
    ∀ (news : List (Option Json)) (n : Nat),
      (readServerEntries jc junk' news n).map (List.map f) =
        (readServerEntries jc junk news n).map (List.map f)
  | [], _ => rfl
  | new :: news, n => by
    have hentry := hf new n
    have hrest := readServerEntries_map hf news (n + 1)
    unfold readServerEntries
    cases h : readServerEntry jc new (junk n) with
    | none =>
      rw [h] at hentry
      rw [Option.map_eq_none_iff.mp hentry]
      rfl
    | some node =>
      rw [h] at hentry
      obtain ⟨node', h', hnode⟩ := Option.map_eq_some_iff.mp hentry
      rw [h']
      cases hr : readServerEntries jc junk news (n + 1) with
      | none =>
        rw [hr] at hrest
        rw [Option.map_eq_none_iff.mp hrest]
        rfl
      | some nodes =>
        rw [hr] at hrest
        obtain ⟨nodes', hr', hnodes⟩ := Option.map_eq_some_iff.mp hrest
        rw [hr']
        show some (f node' :: nodes'.map f) = some (f node :: nodes.map f)
        rw [hnode, hnodes]

theorem checkMyNode_map {ip : Bytes} (hip : ∀ {s s'}, f s' = f s → s'.ip = s.ip) :
    ∀ {serv serv' : List ServerNode}, serv'.map f = serv.map f →
      (checkMyNode serv' ip).map f = (checkMyNode serv ip).map f
  | [], [], _ => rfl
  | s :: serv, s' :: serv', hserv => by
    obtain ⟨hs, hserv'⟩ := List.cons.inj hserv
    unfold checkMyNode
    rw [List.find?_cons, List.find?_cons, hip hs]
    by_cases hme : s.ip = ip
    · simp [hme, hs]
    · simp only [hme, decide_false]
      exact checkMyNode_map hip hserv'

/-- **What two starts over the same documents have in common.** -/
theorem host_map {b : Boot} {junk junk' : Nat → Junk}
    (hf : ∀ new n,
      (readServerEntry b.json new (junk' n)).map f = (readServerEntry b.json new (junk n)).map f)
    (hip : ∀ {s s'}, f s' = f s → s'.ip = s.ip)
    (hgateway : ∀ {s s'}, f s' = f s → s'.gateway = s.gateway) {h : Host}
    (hhost : b.host junk = some h) :
    ∃ h', b.host junk' = some h' ∧ SameHost h h' ∧
      h'.serverConfig.map f = h.serverConfig.map f := by
  unfold Boot.host at hhost
  obtain ⟨serv, hread, hmatch⟩ := Option.bind_eq_some_iff.mp hhost
  split at hmatch
  · cases hmatch
  · rename_i my hfind
    cases hmatch
    have hread' : ∃ serv', readServerConfig b.json junk' b.file = some serv' ∧
        serv'.map f = serv.map f := by
      unfold readServerConfig at hread ⊢
      cases hobj : objectGetEx (b.json.fromFile b.file) (ascii "server") with
      | none => simp [hobj] at hread
      | some v =>
        cases v with
        | arr elems =>
          simp only [hobj] at hread ⊢
          have hmap := readServerEntries_map f hf elems 0
          rw [hread] at hmap
          obtain ⟨serv', h', hserv⟩ := Option.map_eq_some_iff.mp hmap
          exact ⟨serv', h', hserv⟩
        | _ => simp [hobj] at hread
    obtain ⟨serv', hserv', hmap⟩ := hread'
    have hmy : (checkMyNode serv' b.ip).map f = (checkMyNode serv b.ip).map f :=
      checkMyNode_map f hip hmap
    rw [hfind] at hmy
    obtain ⟨my', hfind', hmy'⟩ := Option.map_eq_some_iff.mp hmy
    refine ⟨⟨b.proc, serv', my', List.mem_of_find?_eq_some hfind', b.wild⟩, ?_,
      ⟨rfl, rfl, hip hmy', hgateway hmy'⟩, hmap⟩
    unfold Boot.host
    rw [hserv', Option.bind_some]
    split
    · rename_i hnone
      rw [hfind'] at hnone
      cases hnone
    · rename_i my'' hsome
      have hsame : my'' = my' := Option.some.inj (hsome.symm.trans hfind')
      subst hsame
      rfl

end Documents

/-- The fields that come from the document. -/
def ServerNode.document (node : ServerNode) : Bytes × Bytes × Option Bytes :=
  (node.ip, node.hbPort, node.gateway)

theorem readServerEntry_document (jc : JsonC) (new : Option Json) (j j' : Junk) :
    (readServerEntry jc new j').map ServerNode.document =
      (readServerEntry jc new j).map ServerNode.document := by
  unfold readServerEntry
  cases jc.getString (objectGetEx new (ascii "ip")) with
  | none => rfl
  | some ip =>
    cases jc.getString (objectGetEx new (ascii "hb_port")) with
    | none => rfl
    | some hbPort => rfl

/-- This junk with `teng_ip` pointing to a text and `disconnect` zero. -/
def Junk.pointed (j : Junk) (t : Bytes) : Junk := { j with tengIp := some t, disconnect := 0 }

theorem readServerEntry_pointed (jc : JsonC) (new : Option Json) (j : Junk) (t : Bytes) :
    (readServerEntry jc new (j.pointed t)).map ServerNode.bare =
      (readServerEntry jc new j).map ServerNode.bare := by
  unfold readServerEntry
  cases jc.getString (objectGetEx new (ascii "ip")) with
  | none => rfl
  | some ip =>
    cases jc.getString (objectGetEx new (ascii "hb_port")) with
    | none => rfl
    | some hbPort => rfl

/-- What each record has, the records of a host have. -/
theorem host_forall {b : Boot} {junk : Nat → Junk} {P : ServerNode → Prop}
    (hP : ∀ new n node, readServerEntry b.json new (junk n) = some node → P node) {h : Host}
    (hhost : b.host junk = some h) : ∀ node ∈ h.serverConfig, P node := by
  have hentries : ∀ (news : List (Option Json)) (n : Nat) (nodes : List ServerNode),
      readServerEntries b.json junk news n = some nodes → ∀ node ∈ nodes, P node := by
    intro news
    induction news with
    | nil =>
      intro n nodes hnodes
      cases hnodes
      exact fun _ hn => absurd hn List.not_mem_nil
    | cons new news ih =>
      intro n nodes hnodes
      unfold readServerEntries at hnodes
      obtain ⟨node, hnode, hrest⟩ := Option.bind_eq_some_iff.mp hnodes
      obtain ⟨nodes', hnodes', heq⟩ := Option.bind_eq_some_iff.mp hrest
      cases heq
      exact List.forall_mem_cons.mpr ⟨hP new n node hnode, ih (n + 1) nodes' hnodes'⟩
  unfold Boot.host at hhost
  obtain ⟨serv, hread, hmatch⟩ := Option.bind_eq_some_iff.mp hhost
  split at hmatch
  · cases hmatch
  · cases hmatch
    unfold readServerConfig at hread
    cases hobj : objectGetEx (b.json.fromFile b.file) (ascii "server") with
    | none => simp [hobj] at hread
    | some v =>
      cases v with
      | arr elems =>
        simp only [hobj] at hread
        exact hentries elems 0 serv hread
      | _ => simp [hobj] at hread

theorem ready_pointed {b : Boot} {junk : Nat → Junk} {t : Bytes} {h : Host}
    (hhost : b.host (fun n => (junk n).pointed t) = some h) : Ready t h.serverConfig := by
  refine host_forall (fun new n node hnode => ?_) hhost
  obtain ⟨ip, _, hrest⟩ := Option.bind_eq_some_iff.mp hnode
  obtain ⟨hbPort, _, heq⟩ := Option.bind_eq_some_iff.mp hrest
  cases heq
  refine ⟨rfl, ?_⟩
  show (0 : Int32).toInt ≠ DISCONNECT
  decide

/-! ## Independence -/

theorem hbStart_congr {h h' : Host}
    (hips : h'.serverConfig.map ServerNode.ip = h.serverConfig.map ServerNode.ip)
    (fopen : Nat → Bool) (before : Option HbState) :
    hbStart h' fopen before = hbStart h fopen before :=
  hbStartLoop_congr fopen 0 Assoc.empty before hips

/-- What `hb_start` leaves when it comes to its end. -/
theorem hbStart_go {h : Host} {fopen : Nat → Bool} {before : Option HbState} :
    ((hbStart h fopen before).exit = .go ↔ ∀ k < h.serverConfig.length, fopen k = true) ∧
      ((hbStart h fopen before).exit = .go → ∃ st, (hbStart h fopen before).state = some st ∧
        Connected st h.serverConfig) := by
  obtain ⟨hgo, hend⟩ := hbStartLoop_go fopen h.serverConfig 0 Assoc.empty before
  refine ⟨hgo.trans (by simp only [Nat.zero_add]), fun hx => ?_⟩
  obtain ⟨st, hst, _, hconn⟩ := hend hx fun hnil => absurd (hnil ▸ h.found) List.not_mem_nil
  exact ⟨st, hst, hconn⟩

/-- Without a check that succeeds the outputs are those of `hb_start`. -/
theorem heartbeat_quiet {h : Host} {fopen : Nat → Bool} {Rs : List Round}
    (hnone : (∀ k < h.serverConfig.length, fopen k = true) → ¬ CheckSucceeds h h.serverConfig Rs)
    (before : Option HbState) :
    outputs (heartbeat h fopen before Rs) = outputs (hbStart h fopen before).events := by
  unfold heartbeat
  rw [outputs_append]
  by_cases hgo : (hbStart h fopen before).exit = .go
  · obtain ⟨st, hst, hconn⟩ := hbStart_go.2 hgo
    rw [if_pos hgo, outputs_quiet (run_quiet Rs _ hst hconn (hnone (hbStart_go.1.mp hgo))),
      List.append_nil]
  · rw [if_neg hgo]
    exact List.append_nil _

/-- With one, and ready nodes, a notification to `teng_ip` comes after them. -/
theorem heartbeat_notifies {h : Host} {fopen : Nat → Bool} {Rs : List Round} {t : Bytes}
    (hne : t ≠ ascii "NULL") (hopen : ∀ k < h.serverConfig.length, fopen k = true)
    (hready : Ready t h.serverConfig) (hcheck : CheckSucceeds h h.serverConfig Rs)
    (before : Option HbState) :
    ∃ n fd rest, outputs (heartbeat h fopen before Rs) =
      outputs (hbStart h fopen before).events ++ .hbDown n fd t :: rest := by
  have hgo : (hbStart h fopen before).exit = .go := hbStart_go.1.mpr hopen
  obtain ⟨st, hst, hconn⟩ := hbStart_go.2 hgo
  obtain ⟨n, fd, rest, hrest⟩ := run_notifies hne Rs
    ⟨h.serverConfig, (hbStart h fopen before).state, true⟩ rfl hst hconn hready hcheck
  refine ⟨n, fd, rest, ?_⟩
  unfold heartbeat
  rw [outputs_append, if_pos hgo, hrest]

theorem ips_of_map {α : Type} {f : ServerNode → α} (hip : ∀ {s s'}, f s' = f s → s'.ip = s.ip) :
    ∀ {nodes nodes' : List ServerNode}, nodes'.map f = nodes.map f →
      nodes'.map ServerNode.ip = nodes.map ServerNode.ip
  | [], [], _ => rfl
  | node :: nodes, node' :: nodes', hn => by
    obtain ⟨hn₀, hn'⟩ := List.cons.inj hn
    rw [List.map_cons, List.map_cons, hip hn₀, ips_of_map hip hn']

theorem boot_outputs {b : Boot} {junk : Nat → Junk} {h : Host} (hhost : b.host junk = some h)
    (fopen : Nat → Bool) (before : Option HbState) (Rs : List Round) :
    b.outputs junk fopen before Rs = outputs (heartbeat h fopen before Rs) := by
  unfold Boot.outputs
  rw [hhost]
  rfl

/-- **When the heartbeat does not depend on what `malloc` left**: for this document and these
rounds the files and the notifications are the same over all junk exactly when, over none, some
round has a readable file and a successful check of its first silent peer, the rounds before it
having no silent peer or a failed check of the first. -/
theorem junk_free_iff (b : Boot) (fopen : Nat → Bool) (before : Option HbState)
    (Rs : List Round) :
    (∀ junk junk', b.outputs junk fopen before Rs = b.outputs junk' fopen before Rs) ↔
      ∀ junk h, b.host junk = some h → (∀ k < h.serverConfig.length, fopen k = true) →
        ¬ CheckSucceeds h h.serverConfig Rs := by
  constructor
  · intro hsame junk h hhost hopen hcheck
    -- two runs that differ in `teng_ip` only
    have hrun : ∀ t, t ≠ ascii "NULL" → ∃ n fd rest,
        b.outputs (fun n => (junk n).pointed t) fopen before Rs =
          outputs (hbStart h fopen before).events ++ .hbDown n fd t :: rest := by
      intro t hne
      obtain ⟨h', hhost', hh, hbare⟩ := host_map ServerNode.bare
        (fun new n => readServerEntry_pointed b.json new (junk n) t) ip_of_bare
        gateway_of_bare hhost
      have hips := ips_of_map ip_of_bare hbare
      have hlen : h'.serverConfig.length = h.serverConfig.length := by
        rw [← List.length_map ServerNode.ip, hips, List.length_map]
      have hnotify := heartbeat_notifies hne (hlen ▸ hopen) (ready_pointed hhost')
        ((checkSucceeds_bare hh Rs hbare).mpr hcheck) before
      rw [boot_outputs hhost', ← hbStart_congr hips]
      exact hnotify
    obtain ⟨n, fd, rest, ha⟩ := hrun (ascii "a") (by decide +kernel)
    obtain ⟨n', fd', rest', hb⟩ := hrun (ascii "b") (by decide +kernel)
    have heq := List.append_cancel_left (ha.symm.trans ((hsame _ _).trans hb))
    have haddr : ascii "a" = ascii "b" := (Event.hbDown.inj (List.cons.inj heq).1).2.2
    exact absurd haddr (by decide +kernel)
  · intro hnone junk junk'
    cases hhost : b.host junk with
    | none =>
      cases hhost' : b.host junk' with
      | none =>
        unfold Boot.outputs
        rw [hhost, hhost']
      | some h' =>
        obtain ⟨h, hh, _⟩ := host_map ServerNode.document
          (fun new n => readServerEntry_document b.json new (junk' n) (junk n))
          (fun hs => congrArg Prod.fst hs) (fun hs => congrArg (fun d => d.2.2) hs) hhost'
        rw [hhost] at hh
        cases hh
    | some h =>
      obtain ⟨h', hhost', _, hdoc⟩ := host_map ServerNode.document
        (fun new n => readServerEntry_document b.json new (junk n) (junk' n))
        (fun hs => congrArg Prod.fst hs) (fun hs => congrArg (fun d => d.2.2) hs) hhost
      have hips := ips_of_map (fun hs => congrArg Prod.fst hs) hdoc
      rw [boot_outputs hhost, boot_outputs hhost', heartbeat_quiet (hnone junk h hhost),
        heartbeat_quiet (hnone junk' h' hhost'), hbStart_congr hips]

/-- A `server_config` of two servers. -/
def serverText : Bytes := ascii ("\x7b\"server\":[\x7b\"ip\":\"10.0.0.1\",\"hb_port\":\"5000\"," ++
  "\"gateway\":\"10.0.0.254\"\x7d,\x7b\"ip\":\"10.0.0.2\",\"hb_port\":\"5000\"\x7d]\x7d")

/-- json-c on it. -/
def serverJson : JsonC where
  tokenerParse := fun text => if text = serverText then
    some (.obj [(ascii "server", some (.arr [
      some (.obj [(ascii "ip", some (.str (ascii "10.0.0.1"))),
        (ascii "hb_port", some (.str (ascii "5000"))),
        (ascii "gateway", some (.str (ascii "10.0.0.254")))]),
      some (.obj [(ascii "ip", some (.str (ascii "10.0.0.2"))),
        (ascii "hb_port", some (.str (ascii "5000")))])]))]) else none
  toJsonString := fun _ => []
  parseInt64 := fun _ => 0

/-- The first of the two. -/
def twoBoot : Boot := ⟨twoHosts.proc, twoHosts.wild, serverJson, some serverText, ascii "10.0.0.1"⟩

/-- Records with this `hb_time`. -/
def junkAt (time : Int64) (_ : Nat) : Junk := ⟨some (ascii "NULL"), time, 0⟩

/-- At `clock()` 20000 the peer is lost or not, as `malloc` would have it. -/
theorem junk_shows :
    (twoBoot.outputs (junkAt 0) (fun _ => true) none [silentRound 20000]).length = 4 ∧
      (twoBoot.outputs (junkAt 20000) (fun _ => true) none [silentRound 20000]).length = 2 ∧
      twoBoot.outputs (junkAt 0) (fun _ => true) none [silentRound 20000] ≠
        twoBoot.outputs (junkAt 20000) (fun _ => true) none [silentRound 20000] := by
  have hlost : (twoBoot.outputs (junkAt 0) (fun _ => true) none [silentRound 20000]).length =
      4 := by decide +kernel
  have hkept : (twoBoot.outputs (junkAt 20000) (fun _ => true) none
      [silentRound 20000]).length = 2 := by decide +kernel
  refine ⟨hlost, hkept, fun heq => ?_⟩
  rw [heq, hkept] at hlost
  exact absurd hlost (by decide +kernel)

end JcmController.Heartbeat
