/-
This file models how a path is taken apart (`fs/namei.c`): `link_path_walk` goes
through the string and looks up one name after the other, and `lookup_last` looks
up the last one. What a lookup finds is left open. The names are the pieces
between the slashes, each is looked up in the one before, and a dot stays where
it is. A path that ends in a slash stops the kernel, and so do two dots.
-/

import Xlinux.Kernel

namespace Xlinux

open List

/-! ### The model -/

section Walk

variable {Place : Type} (lookup : List UInt8 → Place → Kernel (Except Int Place))
  (dCanLookup : Place → Bool) {name : List UInt8} {string : List UInt8}

variable {lookup dCanLookup}

end Walk

end Xlinux
