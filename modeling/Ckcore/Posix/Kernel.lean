import Mathlib.Logic.Relation
import Ckcore.Posix.World

/-! The system calls of the POSIX back-end and what the kernel answers to each. `Step`
is the kernel as POSIX specifies it, with its own choices (the inode a new file takes, a
short `read(2)` or `write(2)`) left open; `Kernel` may besides fail any call; `Client` is
another process sharing the filesystem. -/
namespace Ckcore.Posix

/-- The flags argument of `open(2)`: an access mode, and whether `O_CREAT` is set. -/
structure OpenFlags where
  accessMode : AccessMode
  oCreat : Bool
  deriving DecidableEq

inductive Whence
  | seekSet
  | seekCur
  | seekEnd
  deriving DecidableEq, Repr

/-- A system call with the arguments the back-end passes. -/
inductive Syscall
  | «open» (pathname : String) (flags : OpenFlags) (mode : Nat)
  | close (fd : Int)
  | lseek (fd : Int) (offset : Int) (whence : Whence)
  | read (fd : Int) (count : Nat)
  | write (fd : Int) (buf : List UInt8) (count : Nat)
  | fstat (fd : Int)
  | stat (pathname : String)
  | unlink (pathname : String)
  | rename (oldpath newpath : String)
  | access (pathname : String) (amode : Nat)

/-- The return value of a call, with what `read(2)` stores in its buffer and `stat(2)` or
`fstat(2)` in its `struct stat`. -/
structure Reply where
  ret : Int
  buf : List UInt8 := []
  statbuf : Stat := {}

/-- The calls that open no descriptor, close none and change no name. -/
def Syscall.Query : Syscall → Prop
  | .lseek .. | .read .. | .write .. | .fstat .. | .stat .. | .access .. => True
  | _ => False

/-- The descriptor a call acts on, if it takes one. -/
def Syscall.descriptor : Syscall → Option Int
  | .close fd | .lseek fd .. | .read fd .. | .write fd .. | .fstat fd => some fd
  | _ => none

/-- The reply of a failed call. -/
def Reply.failure : Reply := ⟨-1,[],{}⟩

def rOk : Nat := 4
def wOk : Nat := 2

/-- The permission `open(2)` checks for an access mode. -/
def AccessMode.amode : AccessMode → Nat
  | .oRdonly => rOk
  | .oWronly => wOk

/-- The offset `lseek(2)` computes before it checks the result. -/
def Description.seekTarget (w : World) (description : Description) (offset : Int) :
    Whence → Int
  | .seekSet => offset
  | .seekCur => description.offset + offset
  | .seekEnd => (w.inodes description.ino).data.length + offset

/-- The bytes a `read(2)` on `description` can return at most. -/
def Description.available (w : World) (description : Description) : Nat :=
  (w.inodes description.ino).data.length - description.offset

/-- One call answered as POSIX specifies it. -/
inductive Step : World → Syscall → Reply → World → Prop
  | openLinked {w pathname flags mode ino fd} (linked : w.names pathname = some ino)
      (permitted : permits (w.inodes ino).perm flags.accessMode.amode) (lowest : w.Lowest fd) :
      Step w (.open pathname flags mode) ⟨fd,[],{}⟩ (w.setFd fd (some ⟨ino,0,flags.accessMode⟩))
  | openDenied {w pathname flags mode ino} (linked : w.names pathname = some ino)
      (denied : ¬ permits (w.inodes ino).perm flags.accessMode.amode) :
      Step w (.open pathname flags mode) .failure w
  | openCreat {w pathname flags mode ino fd} (creat : flags.oCreat = true)
      (absent : w.names pathname = none) (fresh : w.Unused ino) (lowest : w.Lowest fd) :
      Step w (.open pathname flags mode) ⟨fd,[],{}⟩
        (((w.setInode ino ⟨[],mode,w.clock,w.clock,w.clock⟩).link pathname (some ino)).setFd fd
          (some ⟨ino,0,flags.accessMode⟩))
  | openNoent {w pathname flags mode} (noCreat : flags.oCreat = false)
      (absent : w.names pathname = none) : Step w (.open pathname flags mode) .failure w
  | closeOpen {w fd description} (described : w.fds fd = some description) :
      Step w (.close fd) ⟨0,[],{}⟩ (w.setFd fd none)
  | closeBadf {w fd} (closed : w.fds fd = none) : Step w (.close fd) .failure w
  | lseek {w fd offset whence description} (described : w.fds fd = some description)
      (inRange : 0 ≤ description.seekTarget w offset whence) :
      Step w (.lseek fd offset whence) ⟨description.seekTarget w offset whence,[],{}⟩
        (w.setFd fd (some {description with offset := (description.seekTarget w offset whence).toNat}))
  | lseekInval {w fd offset whence description} (described : w.fds fd = some description)
      (negative : description.seekTarget w offset whence < 0) :
      Step w (.lseek fd offset whence) .failure w
  | lseekBadf {w fd offset whence} (closed : w.fds fd = none) :
      Step w (.lseek fd offset whence) .failure w
  | read {w fd count description} {n : Nat} (described : w.fds fd = some description)
      (readable : description.accessMode = .oRdonly)
      (asked : n ≤ count) (short : n ≤ description.available w)
      (progress : 0 < count → 0 < description.available w → 0 < n) :
      Step w (.read fd count)
        ⟨n,(((w.inodes description.ino).data.drop description.offset).take n),{}⟩
        ((w.setInode description.ino {w.inodes description.ino with atime := w.clock}).setFd fd
          (some {description with offset := description.offset + n}))
  | readBadf {w fd count} (unreadable : ∀ description, w.fds fd = some description →
      description.accessMode ≠ .oRdonly) : Step w (.read fd count) .failure w
  | write {w fd buf count description} {n : Nat} (described : w.fds fd = some description)
      (writable : description.accessMode = .oWronly)
      (short : n ≤ (buf.take count).length) (progress : 0 < (buf.take count).length → 0 < n) :
      Step w (.write fd buf count) ⟨n,[],{}⟩
        ((w.setInode description.ino {w.inodes description.ino with
            data := splice (w.inodes description.ino).data description.offset
              ((buf.take count).take n),
            mtime := w.clock, ctime := w.clock}).setFd fd
          (some {description with offset := description.offset + n}))
  | writeBadf {w fd buf count} (unwritable : ∀ description, w.fds fd = some description →
      description.accessMode ≠ .oWronly) : Step w (.write fd buf count) .failure w
  | fstat {w fd description} (described : w.fds fd = some description) :
      Step w (.fstat fd) ⟨0,[],(w.inodes description.ino).stat⟩ w
  | fstatBadf {w fd} (closed : w.fds fd = none) : Step w (.fstat fd) .failure w
  | stat {w pathname ino} (linked : w.names pathname = some ino) :
      Step w (.stat pathname) ⟨0,[],(w.inodes ino).stat⟩ w
  | statNoent {w pathname} (absent : w.names pathname = none) : Step w (.stat pathname) .failure w
  | unlink {w pathname ino} (linked : w.names pathname = some ino) :
      Step w (.unlink pathname) ⟨0,[],{}⟩ ((w.link pathname none).touch ino)
  | unlinkNoent {w pathname} (absent : w.names pathname = none) :
      Step w (.unlink pathname) .failure w
  /-- Two names of one file: `rename(2)` does nothing and succeeds. -/
  | renameSame {w oldpath newpath ino} (linked : w.names oldpath = some ino)
      (same : w.names newpath = some ino) : Step w (.rename oldpath newpath) ⟨0,[],{}⟩ w
  /-- Otherwise the name moves, and a file already at `newpath` loses that name. -/
  | rename {w oldpath newpath ino} (linked : w.names oldpath = some ino)
      (other : w.names newpath ≠ some ino) :
      Step w (.rename oldpath newpath) ⟨0,[],{}⟩
        (((w.link oldpath none).link newpath (some ino)).touch ino)
  | renameNoent {w oldpath newpath} (absent : w.names oldpath = none) :
      Step w (.rename oldpath newpath) .failure w
  | access {w pathname amode ino} (linked : w.names pathname = some ino)
      (permitted : permits (w.inodes ino).perm amode) :
      Step w (.access pathname amode) ⟨0,[],{}⟩ w
  | accessDenied {w pathname amode ino} (linked : w.names pathname = some ino)
      (denied : ¬ permits (w.inodes ino).perm amode) : Step w (.access pathname amode) .failure w
  | accessNoent {w pathname amode} (absent : w.names pathname = none) :
      Step w (.access pathname amode) .failure w

/-- POSIX, where besides any call may fail for a reason the model does not track (an I/O
error, an interrupted call, an exhausted resource) and return -1. A failed call changes
nothing, except that a failed `close(2)` may have released its descriptor first: POSIX leaves
this open, and Linux always releases it. -/
def Kernel (w : World) (request : Syscall) (reply : Reply) (w' : World) : Prop :=
  Step w request reply w' ∨ reply = .failure ∧
    (w' = w ∨ ∃ fd, request = .close fd ∧ w' = w.setFd fd none)

/-- A step of another process on the same filesystem: it creates a file at a free name, or
removes a name. -/
inductive Client : World → World → Prop
  | creat {w name ino} (inode : Inode) (absent : w.names name = none) (fresh : w.Unused ino) :
      Client w ((w.setInode ino inode).link name (some ino))
  | unlink {w name ino} (linked : w.names name = some ino) :
      Client w ((w.link name none).touch ino)

/-- The calls that return 0 when they succeed. -/
def Syscall.Status : Syscall → Prop
  | .close .. | .fstat .. | .stat .. | .unlink .. | .rename .. | .access .. => True
  | _ => False

/-- `kernel` answers `request` in one way only. -/
def Functional (kernel : World → Syscall → Reply → World → Prop) (request : Syscall) : Prop :=
  ∀ w reply₁ w₁ reply₂ w₂, kernel w request reply₁ w₁ → kernel w request reply₂ w₂ →
    reply₁ = reply₂ ∧ w₁ = w₂

theorem Step.lseek_functional (fd offset : Int) (whence : Whence) :
    Functional Step (.lseek fd offset whence) := fun _ _ _ _ _ first second => by
  cases first <;> cases second <;> simp_all <;> omega

variable {w w' : World} {request : Syscall} {reply : Reply}

theorem Kernel.of_step (answer : Step w request reply w') : Kernel w request reply w' := .inl answer

theorem Kernel.failure (w : World) (request : Syscall) : Kernel w request .failure w :=
  .inr ⟨rfl,.inl rfl⟩

theorem Kernel.released (w : World) (fd : Int) : Kernel w (.close fd) .failure (w.setFd fd none) :=
  .inr ⟨rfl,.inr ⟨fd,rfl,rfl⟩⟩

theorem Kernel.unclosed (answer : Kernel w request reply w') (other : ∀ fd, request ≠ .close fd) :
    Step w request reply w' ∨ reply = .failure ∧ w' = w := by
  rcases answer with answer | ⟨failed,same | ⟨fd,closing,-⟩⟩
  exacts [.inl answer,.inr ⟨failed,same⟩,absurd closing (other fd)]

theorem Kernel.failed (answer : Kernel w request reply w') (status : request.Status)
    (other : ∀ fd, request ≠ .close fd) (failed : reply.ret ≠ 0) : w' = w := by
  rcases answer.unclosed other with answer | ⟨-,rfl⟩
  · cases answer <;> first | rfl | exact absurd rfl failed | exact status.elim
  · rfl

theorem Kernel.query_frame (answer : Kernel w request reply w') (query : request.Query) :
    w'.names = w.names ∧ ∀ fd, (w'.fds fd).map Description.ino = (w.fds fd).map Description.ino := by
  rcases answer.unclosed fun _ closing => by rw [closing] at query; exact query with answer | ⟨-,rfl⟩
  · cases answer <;> first | exact query.elim | exact ⟨rfl,fun _ => rfl⟩ |
      refine ⟨rfl,fun fd => ?_⟩
    all_goals
      simp only [World.setFd_fds,World.setInode_fds,Function.update_apply]
      split_ifs with same <;> simp_all
  · exact ⟨rfl,fun _ => rfl⟩

theorem Kernel.on_closed (answer : Kernel w request reply w') {fd : Int}
    (aimed : request.descriptor = some fd) (closed : w.fds fd = none) : reply = .failure ∧ w' = w := by
  rcases answer with answer | ⟨failed,rfl | ⟨_,rfl,rfl⟩⟩
  · cases answer <;> simp_all [Syscall.descriptor]
  · exact ⟨failed,rfl⟩
  · cases aimed
    exact ⟨failed,World.setFd_same w _ _ closed⟩

/-- What `open(2)` can do: fail and change nothing, or hand out the lowest free descriptor,
on the file linked at `pathname` or on a new one linked there. -/
theorem Kernel.open_cases {pathname : String} {flags : OpenFlags} {mode : Nat}
    (answer : Kernel w (.open pathname flags mode) reply w') :
    reply.ret = -1 ∧ w' = w ∨ ∃ fd ino, reply.ret = fd ∧ w.Lowest fd ∧
      (w.names pathname = some ino ∧ w' = w.setFd fd (some ⟨ino,0,flags.accessMode⟩) ∨
        flags.oCreat = true ∧ w.names pathname = none ∧ w.Unused ino ∧
        w' = ((w.setInode ino ⟨[],mode,w.clock,w.clock,w.clock⟩).link pathname (some ino)).setFd fd
          (some ⟨ino,0,flags.accessMode⟩)) := by
  rcases answer.unclosed fun _ => nofun with answer | ⟨rfl,rfl⟩
  · cases answer with
    | openLinked linked _ lowest => exact .inr ⟨_,_,rfl,lowest,.inl ⟨linked,rfl⟩⟩
    | openCreat creat absent fresh lowest => exact .inr ⟨_,_,rfl,lowest,.inr ⟨creat,absent,fresh,rfl⟩⟩
    | openDenied | openNoent => exact .inl ⟨rfl,rfl⟩
  · exact .inl ⟨rfl,rfl⟩

/-- What `close(2)` can do: release its descriptor and return 0, or fail, having released it
or not. -/
theorem Kernel.close_cases {fd : Int} (answer : Kernel w (.close fd) reply w') :
    reply.ret = 0 ∧ w' = w.setFd fd none ∨ reply.ret ≠ 0 ∧ (w' = w ∨ w' = w.setFd fd none) := by
  rcases answer with answer | ⟨rfl,rfl | ⟨_,⟨⟩,rfl⟩⟩
  · cases answer with
    | closeOpen => exact .inl ⟨rfl,rfl⟩
    | closeBadf => exact .inr ⟨by decide,.inl rfl⟩
  · exact .inr ⟨by decide,.inl rfl⟩
  · exact .inr ⟨by decide,.inr rfl⟩

theorem Kernel.renamed {oldpath newpath : String}
    (answer : Kernel w (.rename oldpath newpath) reply w') (succeeded : reply.ret = 0) :
    ∃ ino, w.names oldpath = some ino ∧ w'.names newpath = some ino ∧ w'.fds = w.fds := by
  rcases answer.unclosed fun _ => nofun with answer | ⟨rfl,-⟩
  · cases answer with
    | renameSame linked same => exact ⟨_,linked,same,rfl⟩
    | rename linked => exact ⟨_,linked,by simp,rfl⟩
    | renameNoent => cases succeeded
  · cases succeeded

theorem Kernel.write_described {fd : Int} {buf : List UInt8} {count : Nat}
    {description : Description} (answer : Kernel w (.write fd buf count) reply w')
    (described : w.fds fd = some description) (writable : description.accessMode = .oWronly) :
    reply = .failure ∧ w' = w ∨ ∃ n : Nat, n ≤ (buf.take count).length ∧ reply.ret = n ∧
      w' = (w.setInode description.ino {w.inodes description.ino with
          data := splice (w.inodes description.ino).data description.offset ((buf.take count).take n),
          mtime := w.clock, ctime := w.clock}).setFd fd
        (some {description with offset := description.offset + n}) := by
  rcases answer.unclosed fun _ => nofun with answer | failure
  · cases answer with
    | write described' _ short => cases described.symm.trans described'; exact .inr ⟨_,short,rfl,rfl⟩
    | writeBadf unwritable => exact absurd writable (unwritable _ described)
  · exact .inl failure

theorem Kernel.read_described {fd : Int} {count : Nat} {description : Description}
    (answer : Kernel w (.read fd count) reply w') (described : w.fds fd = some description)
    (readable : description.accessMode = .oRdonly) :
    reply = .failure ∧ w' = w ∨ ∃ n : Nat, n ≤ description.available w ∧
      (0 < count → 0 < description.available w → 0 < n) ∧
      reply = ⟨n,((w.inodes description.ino).data.drop description.offset).take n,{}⟩ ∧
      w' = (w.setInode description.ino {w.inodes description.ino with atime := w.clock}).setFd fd
        (some {description with offset := description.offset + n}) := by
  rcases answer.unclosed fun _ => nofun with answer | failure
  · cases answer with
    | read described' _ _ short progress =>
      cases described.symm.trans described'
      exact .inr ⟨_,short,progress,rfl,rfl⟩
    | readBadf unreadable => exact absurd readable (unreadable _ described)
  · exact .inl failure

theorem Kernel.read_unreadable {fd : Int} {count : Nat}
    (answer : Kernel w (.read fd count) reply w')
    (unreadable : ∀ description, w.fds fd = some description → description.accessMode ≠ .oRdonly) :
    reply = .failure ∧ w' = w := by
  rcases answer.unclosed fun _ => nofun with answer | failure
  · cases answer with
    | read described readable => exact absurd readable (unreadable _ described)
    | readBadf => exact ⟨rfl,rfl⟩
  · exact failure

theorem Kernel.fds_frame (answer : Kernel w request reply w') {fd : Int}
    (other : request.descriptor ≠ some fd)
    (unopened : ∀ pathname flags mode, request = .open pathname flags mode → reply.ret ≠ fd) :
    w'.fds fd = w.fds fd := by
  rcases answer with answer | ⟨-,rfl | ⟨_,rfl,rfl⟩⟩
  · cases answer <;> simp only [Syscall.descriptor,ne_eq,Option.some.injEq] at other <;>
      simp only [World.setFd_fds,World.setInode_fds,World.link_fds,World.touch_fds,
        Function.update_apply]
    all_goals first
      | rfl
      | rw [if_neg (Ne.symm other)]
      | rw [if_neg (Ne.symm (unopened _ _ _ rfl))]
  · rfl
  · simp only [Syscall.descriptor,ne_eq,Option.some.injEq] at other
    simp only [World.setFd_fds,Function.update_apply,if_neg (Ne.symm other)]

theorem Kernel.keeps_open (answer : Kernel w request reply w') {fd : Int}
    (other : request ≠ .close fd) (described : w.fds fd ≠ none) : w'.fds fd ≠ none := by
  rcases answer with answer | ⟨-,rfl | ⟨_,rfl,rfl⟩⟩
  · cases answer <;>
      (try simp only [World.setFd_fds,World.setInode_fds,World.link_fds,World.touch_fds,
        Function.update_apply]) <;>
      first
      | exact described
      | (split_ifs <;> simp_all)
  · exact described
  · simp only [World.setFd_fds,Function.update_apply]
    split_ifs <;> simp_all

theorem Kernel.keeps_described (answer : Kernel w request reply w') {fd : Int}
    (other : request.descriptor ≠ some fd) (described : w.fds fd ≠ none) :
    w'.fds fd = w.fds fd := by
  cases request with
  | «open» pathname flags mode =>
    rcases answer.open_cases with ⟨-,rfl⟩ | ⟨fd',ino,returned,lowest,-⟩
    · rfl
    · exact answer.fds_frame other fun _ _ _ _ same =>
        described (returned.symm.trans same ▸ lowest.2.1)
  | _ => exact answer.fds_frame other fun _ _ _ => nofun

theorem Client.fds_eq {w w' : World} (step : Client w w') : w'.fds = w.fds := by
  cases step <;> rfl

theorem Client.star_fds {w w' : World} (moved : Relation.ReflTransGen Client w w') :
    w'.fds = w.fds := by
  induction moved with
  | refl => rfl
  | tail _ step ih => rw [step.fds_eq,ih]

/-- `kernel` answers `request` from every world. -/
def Total (kernel : World → Syscall → Reply → World → Prop) (request : Syscall) : Prop :=
  ∀ w, ∃ reply w', kernel w request reply w'

/-- POSIX answers every call but `open(2)`, which needs a free descriptor and, to create, an
unused inode. -/
theorem Step.total {request : Syscall}
    (notOpen : ∀ pathname flags mode, request ≠ .open pathname flags mode) : Total Step request := by
  intro w
  cases request with
  | «open» pathname flags mode => exact absurd rfl (notOpen pathname flags mode)
  | close fd =>
    cases described : w.fds fd
    exacts [⟨_,_,.closeBadf described⟩,⟨_,_,.closeOpen described⟩]
  | lseek fd offset whence =>
    cases described : w.fds fd with
    | none => exact ⟨_,_,.lseekBadf described⟩
    | some description =>
      by_cases inRange : 0 ≤ description.seekTarget w offset whence
      exacts [⟨_,_,.lseek described inRange⟩,⟨_,_,.lseekInval described (by omega)⟩]
  | read fd count =>
    by_cases readable : ∃ description, w.fds fd = some description ∧ description.accessMode = .oRdonly
    · obtain ⟨description,described,readable⟩ := readable
      exact ⟨_,_,@Step.read _ _ _ _ (min count (description.available w)) described readable
        (Nat.min_le_left _ _) (Nat.min_le_right _ _) fun asked available => by omega⟩
    · exact ⟨_,_,.readBadf fun description described same => readable ⟨description,described,same⟩⟩
  | write fd buf count =>
    by_cases writable : ∃ description, w.fds fd = some description ∧ description.accessMode = .oWronly
    · obtain ⟨description,described,writable⟩ := writable
      exact ⟨_,_,@Step.write _ _ _ _ _ (buf.take count).length described writable
        (Nat.le_refl _) id⟩
    · exact ⟨_,_,.writeBadf fun description described same => writable ⟨description,described,same⟩⟩
  | fstat fd =>
    cases described : w.fds fd
    exacts [⟨_,_,.fstatBadf described⟩,⟨_,_,.fstat described⟩]
  | stat pathname =>
    cases linked : w.names pathname
    exacts [⟨_,_,.statNoent linked⟩,⟨_,_,.stat linked⟩]
  | unlink pathname =>
    cases linked : w.names pathname
    exacts [⟨_,_,.unlinkNoent linked⟩,⟨_,_,.unlink linked⟩]
  | rename oldpath newpath =>
    cases linked : w.names oldpath with
    | none => exact ⟨_,_,.renameNoent linked⟩
    | some ino =>
      by_cases same : w.names newpath = some ino
      exacts [⟨_,_,.renameSame linked same⟩,⟨_,_,.rename linked same⟩]
  | access pathname amode =>
    cases linked : w.names pathname with
    | none => exact ⟨_,_,.accessNoent linked⟩
    | some ino =>
      by_cases permitted : permits (w.inodes ino).perm amode
      exacts [⟨_,_,.access linked permitted⟩,⟨_,_,.accessDenied linked permitted⟩]

theorem Step.open_total {pathname : String} {flags : OpenFlags} {mode : Nat}
    (free : ∃ fd, 0 ≤ fd ∧ w.fds fd = none) (spare : ∃ ino, w.Unused ino) :
    ∃ reply w', Step w (.open pathname flags mode) reply w' := by
  obtain ⟨fd,lowest⟩ := World.exists_lowest free
  obtain ⟨ino,fresh⟩ := spare
  cases linked : w.names pathname with
  | some ino =>
    by_cases permitted : permits (w.inodes ino).perm flags.accessMode.amode
    exacts [⟨_,_,.openLinked linked permitted lowest⟩,⟨_,_,.openDenied linked permitted⟩]
  | none =>
    cases creat : flags.oCreat
    exacts [⟨_,_,.openNoent creat linked⟩,⟨_,_,.openCreat creat linked fresh lowest⟩]

theorem Step.open_ret {pathname : String} {flags : OpenFlags} {mode : Nat}
    (answer : Step w (.open pathname flags mode) reply w') :
    reply.ret ≠ -1 ↔ (∃ ino, w.names pathname = some ino ∧
      permits (w.inodes ino).perm flags.accessMode.amode) ∨
      (flags.oCreat = true ∧ w.names pathname = none) := by
  cases answer with
  | openLinked linked permitted lowest =>
    exact iff_of_true (by have := lowest.1; dsimp only; omega) (.inl ⟨_,linked,permitted⟩)
  | openCreat creat absent _ lowest =>
    exact iff_of_true (by have := lowest.1; dsimp only; omega) (.inr ⟨creat,absent⟩)
  | openDenied linked denied =>
    refine iff_of_false (by decide) ?_
    rintro (⟨ino,linked',permitted⟩ | ⟨-,absent⟩) <;> simp_all
  | openNoent noCreat absent =>
    refine iff_of_false (by decide) ?_
    rintro (⟨ino,linked,-⟩ | ⟨creat,-⟩) <;> simp_all

theorem Step.access_ret {pathname : String} {amode : Nat}
    (answer : Step w (.access pathname amode) reply w') :
    w' = w ∧ (reply.ret = 0 ↔ ∃ ino, w.names pathname = some ino ∧ permits (w.inodes ino).perm amode) := by
  cases answer with
  | access linked permitted => exact ⟨rfl,iff_of_true rfl ⟨_,linked,permitted⟩⟩
  | accessDenied linked denied =>
    refine ⟨rfl,iff_of_false (by decide) ?_⟩
    rintro ⟨ino,linked',permitted⟩
    simp_all
  | accessNoent absent =>
    refine ⟨rfl,iff_of_false (by decide) ?_⟩
    rintro ⟨ino,linked,-⟩
    simp_all

theorem Step.access_functional (pathname : String) (amode : Nat) :
    Functional Step (.access pathname amode) :=
  fun _ _ _ _ _ first second => by cases first <;> cases second <;> simp_all

/-- The calls that change the bytes of a file or take a name away from one. -/
def Syscall.Alters : Syscall → Prop
  | .write .. | .unlink .. | .rename .. => True
  | _ => False

theorem Kernel.keeps_file (answer : Kernel w request reply w') (stays : ¬ request.Alters)
    {name : String} {ino : Nat} (linked : w.names name = some ino) :
    w'.names name = some ino ∧ (w'.inodes ino).data = (w.inodes ino).data := by
  rcases answer with answer | ⟨-,rfl | ⟨_,rfl,rfl⟩⟩
  · cases answer
    case openCreat pathname _ _ created _ _ absent fresh _ =>
      have other : name ≠ pathname := fun same => by rw [same,absent] at linked; cases linked
      have unused : ino ≠ created := fun same => fresh.1 name (same ▸ linked)
      simp [Function.update_noteq other,Function.update_noteq unused,linked]
    case read =>
      refine ⟨linked,?_⟩
      simp only [World.setFd_inodes,World.setInode_inodes,Function.update_apply]
      split_ifs with same
      · subst same; rfl
      · rfl
    all_goals first | exact ⟨linked,rfl⟩ | exact absurd trivial stays
  all_goals exact ⟨linked,rfl⟩

theorem Kernel.stat_world {pathname : String} (answer : Kernel w (.stat pathname) reply w') :
    w' = w := by
  rcases answer.unclosed fun _ => nofun with answer | ⟨-,rfl⟩
  · cases answer <;> rfl
  · rfl

end Ckcore.Posix
