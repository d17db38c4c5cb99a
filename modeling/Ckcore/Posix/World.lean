import Mathlib.Logic.Function.Basic
import Mathlib.Data.Nat.Find

/-! The kernel state the POSIX back-end of `File` works against: names linked to inodes,
the inodes, and the descriptor table of the calling process. An inode outlives its last
name while a descriptor refers to it, which is what an unlinked but open file is. -/
namespace Ckcore.Posix

/-- A file: its bytes, its permission bits and the three times `stat(2)` reports. -/
structure Inode where
  data : List UInt8
  perm : Nat
  atime : Int
  mtime : Int
  ctime : Int

/-- The access mode an open file description was opened with. -/
inductive AccessMode
  | oRdonly
  | oWronly
  deriving DecidableEq, Repr

/-- An open file description: the file it refers to, its file offset and access mode. -/
structure Description where
  ino : Nat
  offset : Nat
  accessMode : AccessMode

structure World where
  names : String → Option Nat
  inodes : Nat → Inode
  fds : Int → Option Description
  clock : Int

/-- The fields of `struct stat` the back-end reads. -/
structure Stat where
  size : Nat := 0
  atime : Int := 0
  mtime : Int := 0
  ctime : Int := 0

def Inode.stat (inode : Inode) : Stat :=
  ⟨inode.data.length,inode.atime,inode.mtime,inode.ctime⟩

/-- The bytes of `data` with `bytes` written at `offset`; a gap past the end reads as
zeros. -/
def splice (data : List UInt8) (offset : Nat) (bytes : List UInt8) : List UInt8 :=
  data.take offset ++ List.replicate (offset - data.length) 0 ++ bytes ++
    data.drop (offset + bytes.length)

/-- Owner permission check of `access(2)` and `open(2)`: `amode` is `R_OK` or `W_OK`, and
the calling process owns the file without being privileged. -/
def permits (perm amode : Nat) : Prop := perm &&& (amode <<< 6) = amode <<< 6

instance (perm amode : Nat) : Decidable (permits perm amode) :=
  inferInstanceAs (Decidable (_ = _))

namespace World

def link (w : World) (name : String) (ino : Option Nat) : World :=
  {w with names := Function.update w.names name ino}

def setInode (w : World) (ino : Nat) (inode : Inode) : World :=
  {w with inodes := Function.update w.inodes ino inode}

def setFd (w : World) (fd : Int) (description : Option Description) : World :=
  {w with fds := Function.update w.fds fd description}

/-- Records a status change of `ino` at the current time. -/
def touch (w : World) (ino : Nat) : World :=
  w.setInode ino {w.inodes ino with ctime := w.clock}

/-- `fd` is the descriptor `open(2)` hands out: the lowest one not in use. -/
def Lowest (w : World) (fd : Int) : Prop :=
  0 ≤ fd ∧ w.fds fd = none ∧ ∀ k, 0 ≤ k → k < fd → w.fds k ≠ none

theorem Lowest.zero {w : World} (free : w.fds 0 = none) : w.Lowest 0 :=
  ⟨Int.le_refl 0,free,fun _ nonnegative below => absurd below (by omega)⟩

theorem exists_lowest {w : World} (free : ∃ fd, 0 ≤ fd ∧ w.fds fd = none) : ∃ fd, w.Lowest fd := by
  classical
  obtain ⟨fd,nonnegative,unused⟩ := free
  have some_free : ∃ n : Nat, w.fds n = none :=
    ⟨fd.toNat,by rw [Int.toNat_of_nonneg nonnegative]; exact unused⟩
  refine ⟨Nat.find some_free,Int.ofNat_nonneg _,Nat.find_spec some_free,fun k nonnegative below => ?_⟩
  have lower := @Nat.find_min _ _ some_free k.toNat (by omega)
  rwa [Int.toNat_of_nonneg nonnegative] at lower

/-- No name and no descriptor refers to `ino`, so a new file may take it. -/
def Unused (w : World) (ino : Nat) : Prop :=
  (∀ name, w.names name ≠ some ino) ∧ ∀ fd description, w.fds fd = some description →
    description.ino ≠ ino

/-- The bytes of the file linked at `name`, none when no file is. -/
def bytesAt (w : World) (name : String) : List UInt8 :=
  match w.names name with
  | none => []
  | some ino => (w.inodes ino).data

@[simp] theorem link_names (w : World) (name : String) (ino : Option Nat) :
    (w.link name ino).names = Function.update w.names name ino := rfl
@[simp] theorem link_inodes (w : World) (name : String) (ino : Option Nat) :
    (w.link name ino).inodes = w.inodes := rfl
@[simp] theorem link_fds (w : World) (name : String) (ino : Option Nat) :
    (w.link name ino).fds = w.fds := rfl
@[simp] theorem link_clock (w : World) (name : String) (ino : Option Nat) :
    (w.link name ino).clock = w.clock := rfl
@[simp] theorem setInode_names (w : World) (ino : Nat) (inode : Inode) :
    (w.setInode ino inode).names = w.names := rfl
@[simp] theorem setInode_inodes (w : World) (ino : Nat) (inode : Inode) :
    (w.setInode ino inode).inodes = Function.update w.inodes ino inode := rfl
@[simp] theorem setInode_fds (w : World) (ino : Nat) (inode : Inode) :
    (w.setInode ino inode).fds = w.fds := rfl
@[simp] theorem setInode_clock (w : World) (ino : Nat) (inode : Inode) :
    (w.setInode ino inode).clock = w.clock := rfl
@[simp] theorem setFd_names (w : World) (fd : Int) (description : Option Description) :
    (w.setFd fd description).names = w.names := rfl
@[simp] theorem setFd_inodes (w : World) (fd : Int) (description : Option Description) :
    (w.setFd fd description).inodes = w.inodes := rfl
@[simp] theorem setFd_fds (w : World) (fd : Int) (description : Option Description) :
    (w.setFd fd description).fds = Function.update w.fds fd description := rfl
@[simp] theorem setFd_clock (w : World) (fd : Int) (description : Option Description) :
    (w.setFd fd description).clock = w.clock := rfl
@[simp] theorem touch_names (w : World) (ino : Nat) : (w.touch ino).names = w.names := rfl
@[simp] theorem touch_fds (w : World) (ino : Nat) : (w.touch ino).fds = w.fds := rfl

@[simp] theorem setFd_bytesAt (w : World) (fd : Int) (description : Option Description)
    (name : String) : (w.setFd fd description).bytesAt name = w.bytesAt name := rfl

theorem bytesAt_linked {w : World} {name : String} {ino : Nat} (linked : w.names name = some ino) :
    w.bytesAt name = (w.inodes ino).data := by
  simp [bytesAt,linked]

@[simp] theorem setFd_setFd (w : World) (fd : Int) (first second : Option Description) :
    (w.setFd fd first).setFd fd second = w.setFd fd second := by
  simp [setFd]

theorem setFd_same (w : World) (fd : Int) (description : Option Description)
    (described : w.fds fd = description) : w.setFd fd description = w := by
  cases w
  simp only [setFd,World.mk.injEq,and_true,true_and]
  exact Function.update_eq_self_iff.mpr described.symm

theorem Unused.setFd_none {w : World} {ino : Nat} (unused : w.Unused ino) (fd : Int) :
    (w.setFd fd none).Unused ino := by
  refine ⟨unused.1,fun other description described => unused.2 other description ?_⟩
  simp only [setFd_fds,Function.update_apply] at described
  split_ifs at described
  exact described

end World

end Ckcore.Posix
