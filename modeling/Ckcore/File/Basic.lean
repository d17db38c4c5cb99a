import Ckcore.Posix.Prog

/-! `ckcore::File` of the Linux back-end, `src/linux/file.cc`: a path and a descriptor,
`-1` when none is held. Each member function is a program over the system calls it makes,
the static ones taking a `Path` in place of `this`. -/
namespace Ckcore
open Posix

/-- `ckcore::Path`, by the name string the back-end hands to the kernel. -/
structure Path where
  name : String
  deriving DecidableEq, Repr

inductive FileMode
  | ckOpenRead
  | ckOpenWrite
  deriving DecidableEq, Repr

inductive FileWhence
  | ckFileBegin
  | ckFileCurrent
  | ckFileEnd
  deriving DecidableEq, Repr

structure File where
  fileHandle : Int
  filePath : Path
  deriving DecidableEq, Repr

/-- The `whence` of `lseek(2)` for each case of the `switch` in `File::Seek`. -/
def FileWhence.toWhence : FileWhence → Whence
  | .ckFileCurrent => .seekCur
  | .ckFileBegin => .seekSet
  | .ckFileEnd => .seekEnd

def sIrusr : Nat := 0o400
def sIwusr : Nat := 0o200

namespace File

variable {Tm : Type} (localtime : Int → Option Tm)

/-- `File::File`: the path only, no descriptor. -/
def ofPath (filePath : Path) : File := ⟨-1,filePath⟩

@[simp] theorem ofPath_fileHandle (filePath : Path) : (ofPath filePath).fileHandle = -1 := rfl
@[simp] theorem ofPath_filePath (filePath : Path) : (ofPath filePath).filePath = filePath := rfl

/-- `File::Close`. -/
def close (f : File) : Prog (Bool × File) :=
  if f.fileHandle = -1 then pure (false,f) else do
    let result ← sys (.close f.fileHandle)
    pure (if result.ret = 0 then (true,{f with fileHandle := -1}) else (false,f))

/-- `File::~File`. -/
def destruct (f : File) : Prog Unit := do
  let _ ← f.close
  pure ()

/-- The `open(2)` call of each case of the `switch` in `File::Open`. -/
def openRequest (f : File) : FileMode → Syscall
  | .ckOpenRead => .open f.filePath.name ⟨.oRdonly,false⟩ 0
  | .ckOpenWrite => .open f.filePath.name ⟨.oWronly,true⟩ (sIrusr ||| sIwusr)

/-- `File::Open`: a descriptor already held is closed first, and if that fails `Open` fails. -/
def «open» (f : File) (fileMode : FileMode) : Prog (Bool × File) := do
  let (closed,f) ← (if f.fileHandle ≠ -1 then f.close else pure (true,f))
  if closed then do
    let result ← sys (f.openRequest fileMode)
    pure (result.ret ≠ -1,{f with fileHandle := result.ret})
  else pure (false,f)

/-- `File::Test`. -/
def test (f : File) : Bool := f.fileHandle ≠ -1

/-- `File::Seek`. -/
def seek (f : File) (distance : Int) (whence : FileWhence) : Prog Int :=
  if f.fileHandle = -1 then pure (-1) else do
    let result ← sys (.lseek f.fileHandle distance whence.toWhence)
    pure result.ret

/-- `File::Tell`. -/
def tell (f : File) : Prog Int :=
  if f.fileHandle = -1 then pure (-1) else do
    let result ← sys (.lseek f.fileHandle 0 .seekCur)
    pure result.ret

/-- `File::Read`: the count `read(2)` returns and the bytes it stored in the buffer. -/
def read (f : File) (count : Nat) : Prog (Int × List UInt8) :=
  if f.fileHandle = -1 then pure (-1,[]) else do
    let result ← sys (.read f.fileHandle count)
    pure (result.ret,result.buf)

/-- `File::Write`. -/
def write (f : File) (buffer : List UInt8) (count : Nat) : Prog Int :=
  if f.fileHandle = -1 then pure (-1) else do
    let result ← sys (.write f.fileHandle buffer count)
    pure result.ret

/-- `File::Exist(const Path&)`. -/
def existAt (filePath : Path) : Prog Bool := do
  let result ← sys (.stat filePath.name)
  pure (result.ret = 0)

/-- `File::Exist()`. -/
def exist (f : File) : Prog Bool :=
  if f.fileHandle ≠ -1 then do
    let result ← sys (.fstat f.fileHandle)
    pure (result.ret = 0)
  else existAt f.filePath

/-- `File::Remove()`: the result of the `Close` is not looked at. -/
def remove (f : File) : Prog (Bool × File) := do
  let (_,f) ← f.close
  let result ← sys (.unlink f.filePath.name)
  pure (result.ret = 0,f)

/-- `File::Remove(const Path&)`. -/
def removeAt (filePath : Path) : Prog Bool := do
  let result ← sys (.unlink filePath.name)
  pure (result.ret = 0)

/-- `File::Rename(const Path&)`: gives up if a file exists at the new path; otherwise closes,
whatever the `Close` returns, and renames. -/
def rename (f : File) (newFilePath : Path) : Prog (Bool × File) := do
  let taken ← existAt newFilePath
  if taken then pure (false,f) else do
    let (_,f) ← f.close
    let result ← sys (.rename f.filePath.name newFilePath.name)
    pure (if result.ret = 0 then (true,{f with filePath := newFilePath}) else (false,f))

/-- `File::Rename(const Path&, const Path&)`. -/
def renameAt (oldFilePath newFilePath : Path) : Prog Bool := do
  let taken ← existAt newFilePath
  if taken then pure false else do
    let result ← sys (.rename oldFilePath.name newFilePath.name)
    pure (result.ret = 0)

/-- The conversions to local time both forms of `Time` make; an output converted before a
failing conversion keeps its new value. -/
def localTimes (statbuf : Stat) (accessTime modifyTime createTime : Tm) : Bool × Tm × Tm × Tm :=
  match localtime statbuf.atime with
  | none => (false,accessTime,modifyTime,createTime)
  | some accessTime =>
    match localtime statbuf.mtime with
    | none => (false,accessTime,modifyTime,createTime)
    | some modifyTime =>
      match localtime statbuf.ctime with
      | none => (false,accessTime,modifyTime,createTime)
      | some createTime => (true,accessTime,modifyTime,createTime)

/-- `File::Time(const Path&, ...)`. -/
def timeAt (filePath : Path) (accessTime modifyTime createTime : Tm) :
    Prog (Bool × Tm × Tm × Tm) := do
  let result ← sys (.stat filePath.name)
  pure (if result.ret = -1 then (false,accessTime,modifyTime,createTime)
    else localTimes localtime result.statbuf accessTime modifyTime createTime)

/-- `File::Time(...)`. -/
def time (f : File) (accessTime modifyTime createTime : Tm) : Prog (Bool × Tm × Tm × Tm) :=
  if f.fileHandle ≠ -1 then do
    let result ← sys (.fstat f.fileHandle)
    pure (if result.ret = -1 then (false,accessTime,modifyTime,createTime)
      else localTimes localtime result.statbuf accessTime modifyTime createTime)
  else timeAt localtime f.filePath accessTime modifyTime createTime

/-- `File::Access(const Path&, FileMode)`. -/
def accessAt (filePath : Path) (fileMode : FileMode) : Prog Bool := do
  let result ← sys (.access filePath.name (match fileMode with
    | .ckOpenRead => rOk
    | .ckOpenWrite => wOk))
  pure (result.ret = 0)

/-- `File::Access(FileMode)`. -/
def access (f : File) (fileMode : FileMode) : Prog Bool := accessAt f.filePath fileMode

/-- `File::Size(const Path&)`. -/
def sizeAt (filePath : Path) : Prog Int := do
  let result ← sys (.stat filePath.name)
  pure (if result.ret = -1 then -1 else result.statbuf.size)

/-- `File::Size()`: with a descriptor, the end offset, found by seeking there and back. -/
def size (f : File) : Prog Int :=
  if f.fileHandle = -1 then sizeAt f.filePath else do
    let curPos ← f.tell
    let size ← f.seek 0 .ckFileEnd
    let _ ← f.seek curPos .ckFileBegin
    pure size

end File

/-- A call of a member function of `File`, with its arguments. -/
inductive Op (Tm : Type)
  | «open» (fileMode : FileMode)
  | close
  | test
  | seek (distance : Int) (whence : FileWhence)
  | tell
  | read (count : Nat)
  | write (buffer : List UInt8) (count : Nat)
  | exist
  | remove
  | rename (newFilePath : Path)
  | time (accessTime modifyTime createTime : Tm)
  | access (fileMode : FileMode)
  | size

/-- What a member function returns. -/
inductive Outcome (Tm : Type)
  | bool (value : Bool)
  | int (value : Int)
  | bytes (count : Int) (buffer : List UInt8)
  | times (value : Bool) (accessTime modifyTime createTime : Tm)

namespace Op

variable {Tm : Type} (localtime : Int → Option Tm)

/-- Calls the member function on `f`, returning what it returns and `f` afterwards. -/
def run (f : File) : Op Tm → Prog (Outcome Tm × File)
  | .open fileMode => do let (b,f) ← f.open fileMode; pure (.bool b,f)
  | .close => do let (b,f) ← f.close; pure (.bool b,f)
  | .test => pure (.bool f.test,f)
  | .seek distance whence => do let n ← f.seek distance whence; pure (.int n,f)
  | .tell => do let n ← f.tell; pure (.int n,f)
  | .read count => do let (n,buffer) ← f.read count; pure (.bytes n buffer,f)
  | .write buffer count => do let n ← f.write buffer count; pure (.int n,f)
  | .exist => do let b ← f.exist; pure (.bool b,f)
  | .remove => do let (b,f) ← f.remove; pure (.bool b,f)
  | .rename newFilePath => do let (b,f) ← f.rename newFilePath; pure (.bool b,f)
  | .time accessTime modifyTime createTime => do
    let (b,a,m,c) ← f.time localtime accessTime modifyTime createTime
    pure (.times b a m c,f)
  | .access fileMode => do let b ← f.access fileMode; pure (.bool b,f)
  | .size => do let n ← f.size; pure (.int n,f)

/-- The member functions that leave `this` as it is: all but `Open`, `Close`, `Remove` and
`Rename`. -/
def Keeps : Op Tm → Prop
  | .open _ | .close | .remove | .rename _ => False
  | _ => True

/-- The member functions that call `write(2)`, `unlink(2)` or `rename(2)`. -/
def Alters : Op Tm → Prop
  | .write .. | .remove | .rename _ => True
  | _ => False

/-- The member function that calls `open(2)`. -/
def Opens : Op Tm → Prop
  | .open _ => True
  | _ => False

/-- The path a member function may move `this` to. -/
def target : Op Tm → Option Path
  | .rename newFilePath => some newFilePath
  | _ => none

end Op

variable {Tm : Type}

/-- A run of member functions on one `File`: each step with its call and the system calls
it made, against `kernel`, with `env` moving the world before each system call. -/
inductive Session (localtime : Int → Option Tm) (kernel : World → Syscall → Reply → World → Prop)
    (env : World → World → Prop) : File → World → List (Op Tm × List Event) → File → World → Prop
  | nil (f : File) (w : World) : Session localtime kernel env f w [] f w
  | step {f w op events outcome f₁ w₁ steps f₂ w₂}
      (ran : Exec kernel env (op.run localtime f) w events (outcome,f₁) w₁)
      (rest : Session localtime kernel env f₁ w₁ steps f₂ w₂) :
      Session localtime kernel env f w ((op,events) :: steps) f₂ w₂

theorem Session.mono {localtime : Int → Option Tm} {kernel kernel' : World → Syscall → Reply → World → Prop}
    {env env' : World → World → Prop} {f f' : File} {w w' : World} {steps : List (Op Tm × List Event)}
    (run : Session localtime kernel env f w steps f' w')
    (answers : ∀ w request reply w', kernel w request reply w' → kernel' w request reply w')
    (moves : ∀ w w', env w w' → env' w w') : Session localtime kernel' env' f w steps f' w' := by
  induction run with
  | nil => exact .nil _ _
  | step ran _ ih => exact .step (ran.mono answers moves) ih

end Ckcore
