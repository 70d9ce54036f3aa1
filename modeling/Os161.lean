import Os161.Bathroom
import Os161.Console
import Os161.Emufs
import Os161.Execv
import Os161.FileIo
import Os161.Ipi
import Os161.KArray
import Os161.Kheap
import Os161.LhdSync
import Os161.Locking
import Os161.Malloc
import Os161.Memmove
import Os161.Printf
import Os161.Reschedule
import Os161.RwLock
import Os161.Sbrk
import Os161.Sfs.Address
import Os161.Sfs.Alloc
import Os161.Sfs.Arrays
import Os161.Sfs.DirMap
import Os161.Sfs.Failed
import Os161.Sfs.Getdirentry
import Os161.Sfs.Lifetime
import Os161.Sfs.Limit
import Os161.Sfs.Links
import Os161.Sfs.Owner
import Os161.Sfs.Sync
import Os161.Sfs.Transparent
import Os161.Sfsck
import Os161.Spl
import Os161.Swap
import Os161.UserCopy
import Os161.Vfs.Balance
import Os161.Vfs.Devices
import Os161.Vfs.Getdevice
import Os161.Waitpid
