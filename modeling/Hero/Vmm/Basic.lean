import Mathlib.Data.BitVec

/-!
# Virtual memory management on the accelerator

Types that all parts of the VMM library share.
-/

namespace Hero.Vmm

/-- `errno` values the library returns, all negative. -/
inductive Errno where
  | efault
  | enxio
  | einval
  | eperm
  | enoent
  | enomem
  deriving DecidableEq, Repr

abbrev VirtAddr := BitVec 32

end Hero.Vmm
