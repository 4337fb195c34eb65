import Mathlib.Algebra.Group.Int.Defs
import Mathlib.Data.Nat.Notation
import Mathlib.Data.Int.Notation

set_option relaxedAutoImplicit false
set_option autoImplicit false

/-!
# The system call interface

The constants that kernel and user space share (`crates/k0-abi/src/lib.rs`): system call
numbers, object types, mapping permissions, error codes and the fixed addresses.

Error codes are negative 64-bit integers that a handler returns in `x0`; `asU64` is the cast
from `i64` to the register value.
-/

namespace K0.Abi

/-- The virtual offset of the linear TTBR1 alias, `0xFFFF_0000_0000_0000`. -/
def kernelVaOffset : ℕ := 0xFFFF000000000000

/-! ### System call numbers

The value of `x8` selects the call. -/

namespace Syscall

def debugPutc : UInt64 := 0
def yield : UInt64 := 1
def exit : UInt64 := 2
def retype : UInt64 := 3
def map : UInt64 := 4
def tcbConfigure : UInt64 := 5
def tcbResume : UInt64 := 6
def send : UInt64 := 7
def recv : UInt64 := 8
def call : UInt64 := 9
def replyRecv : UInt64 := 10

end Syscall

/-- The only IPC flag (`x1`): return `WOULD_BLOCK` instead of waiting. -/
def nonblock : UInt64 := 1

/-! ### Object types of `RETYPE` -/

namespace Obj

def frame : UInt64 := 1
def pageTable : UInt64 := 2
def tcb : UInt64 := 3
def endpoint : UInt64 := 4

end Obj

/-! ### Permissions of `MAP`

No executable permission is offered. -/

namespace Perm

def ro : UInt64 := 0
def rw : UInt64 := 1

end Perm

/-! ### Error codes -/

namespace Err

def badSlot : ℤ := -1
def notUntyped : ℤ := -2
def exhausted : ℤ := -3
def outOfSlots : ℤ := -4
def badType : ℤ := -5
def badVa : ℤ := -6
def badPerm : ℤ := -7
def alreadyMapped : ℤ := -8
def missingTable : ℤ := -9
def overlap : ℤ := -10
def kernelResource : ℤ := -11
def badCap : ℤ := -12
def badState : ℤ := -13
def wouldBlock : ℤ := -14
def noReply : ℤ := -15

end Err

/-- The register value of a returned `i64`. -/
def asU64 (v : ℤ) : UInt64 := UInt64.ofNat (v % 2 ^ 64).toNat

/-- The user address of the read-only bootinfo page. -/
def bootinfoVa : ℕ := 0x0F000000

end K0.Abi
