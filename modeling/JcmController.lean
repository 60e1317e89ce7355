import JcmController.Disk.Settled
import JcmController.Ramdisk.Refine
import JcmController.Ramdisk.Bounds
import JcmController.Backup.Converge
import JcmController.Controller.Framing
import JcmController.Controller.Replicate
import JcmController.Controller.Holder
import JcmController.Controller.NbdReplication
import JcmController.Controller.Replies
import JcmController.Controller.Malformed
import JcmController.Controller.Select
import JcmController.Controller.Buffers
import JcmController.Controller.NbdConfig
import JcmController.Heartbeat.Blame
import JcmController.Heartbeat.Uninitialised
import JcmController.Daemon.Descriptors
import JcmController.Heartbeat.Checksum
import JcmController.Heartbeat.Window
import JcmController.Heartbeat.Heard
import JcmController.Heartbeat.Order
import JcmController.Client.Request
import JcmController.Controller.ReplicaTable
import JcmController.Controller.MountCommand
import JcmController.Lib.Volume
import JcmController.Disk.Window
import JcmController.Heartbeat.Detector
import JcmController.Heartbeat.Network
import JcmController.Backup.CatchUp
import JcmController.Controller.Counters
import JcmController.Controller.Pair
import JcmController.Backup.Heap
import JcmController.Client.Mount
import JcmController.Lib.InFlight
import JcmController.Ramdisk.Concurrent
