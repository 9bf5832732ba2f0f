import Xlinux.Buddy.Coalescing
import Xlinux.Buddy.Boot
import Xlinux.Slab.Safety
import Xlinux.Rbtree.Leftmost
import Xlinux.Vma.Alloc
import Xlinux.Mmap.Brk
import Xlinux.Xarray.Calls
import Xlinux.Printf.Independence
import Xlinux.Printf.Parse
import Xlinux.Fd.Open
import Xlinux.Module.Aligned
import Xlinux.Block.Completion
import Xlinux.Exec.Tables
import Xlinux.Paging.Ioremap
import Xlinux.Namei.Walk
import Xlinux.Paging.Gup
import Xlinux.Cache.Read
import Xlinux.Of.Phandle
import Xlinux.Devres.Resource
import Xlinux.Rootfs.Mount
import Xlinux.Virtio.Layout
import Xlinux.Virtio.Name
