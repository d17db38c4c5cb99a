import Ckcore.Posix.World
import Ckcore.Posix.Kernel
import Ckcore.Posix.Prog
import Ckcore.File.Basic
import Ckcore.File.Exec
import Ckcore.File.Ownership
import Ckcore.File.Size
import Ckcore.File.Rename
import Ckcore.File.Agreement
import Ckcore.File.RoundTrip
import Ckcore.File.Descriptors
import Ckcore.File.Alone
import Ckcore.File.Binding
import Ckcore.File.Shared
import Ckcore.File.Stranded
