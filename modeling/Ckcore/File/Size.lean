import Ckcore.File.Exec

/-! `Size` on an open `File` is a pure query: under POSIX, with no other process acting, it
returns the length of the file and leaves the file offset where it was, also past the end. -/
namespace Ckcore.File
open Posix

variable {f : File}

theorem size_holding (holding : f.fileHandle ≠ -1) :
    f.size = (do
      let curPos ← sys (.lseek f.fileHandle 0 .seekCur)
      let size ← sys (.lseek f.fileHandle 0 .seekEnd)
      let _ ← sys (.lseek f.fileHandle curPos.ret .seekSet)
      pure size.ret) := by
  simp only [size,tell,seek,if_neg holding]
  rfl

theorem tell_holding (holding : f.fileHandle ≠ -1) :
    f.tell = (do
      let result ← sys (.lseek f.fileHandle 0 .seekCur)
      pure result.ret) := by
  simp only [tell,if_neg holding]

theorem tell_functional : f.tell.Calls (Functional Step) :=
  guarded_calls (Step.lseek_functional _ _ _)

theorem lseek_current {w : World} {ino offset : Nat} {accessMode : AccessMode}
    (described : w.fds f.fileHandle = some ⟨ino,offset,accessMode⟩) :
    Step w (.lseek f.fileHandle 0 .seekCur) ⟨offset,[],{}⟩ w := by
  simpa [Description.seekTarget,World.setFd_same w _ _ described] using
    Step.lseek described (show 0 ≤ Description.seekTarget w _ 0 .seekCur by
      simp only [Description.seekTarget]; omega)

theorem tell_run (holding : f.fileHandle ≠ -1) {w : World} {ino offset : Nat}
    {accessMode : AccessMode} (described : w.fds f.fileHandle = some ⟨ino,offset,accessMode⟩) :
    Exec Step Eq f.tell w [⟨w,.lseek f.fileHandle 0 .seekCur,⟨offset,[],{}⟩⟩] (offset : Int) w := by
  rw [tell_holding holding]
  exact .call rfl (lseek_current described) (.pure _ _)

theorem size_functional (holding : f.fileHandle ≠ -1) : f.size.Calls (Functional Step) := by
  rw [size_holding holding]
  exact .bind (.sys (Step.lseek_functional _ _ _)) fun _ =>
    .bind (.sys (Step.lseek_functional _ _ _)) fun _ =>
    .bind (.sys (Step.lseek_functional _ _ _)) fun _ => .pure _

theorem size_run (holding : f.fileHandle ≠ -1) {w : World} {ino offset : Nat}
    {accessMode : AccessMode} (described : w.fds f.fileHandle = some ⟨ino,offset,accessMode⟩) :
    Exec Step Eq f.size w
      [⟨w,.lseek f.fileHandle 0 .seekCur,⟨offset,[],{}⟩⟩,
        ⟨w,.lseek f.fileHandle 0 .seekEnd,⟨(w.inodes ino).data.length,[],{}⟩⟩,
        ⟨w.setFd f.fileHandle (some ⟨ino,(w.inodes ino).data.length,accessMode⟩),
          .lseek f.fileHandle offset .seekSet,⟨offset,[],{}⟩⟩]
      ((w.inodes ino).data.length : Int) w := by
  let length := (w.inodes ino).data.length
  have current := lseek_current described
  have ending : Step w (.lseek f.fileHandle 0 .seekEnd) ⟨length,[],{}⟩
      (w.setFd f.fileHandle (some ⟨ino,length,accessMode⟩)) := by
    simpa [Description.seekTarget] using
      Step.lseek described (show 0 ≤ Description.seekTarget w _ 0 .seekEnd by
        simp only [Description.seekTarget]; omega)
  have back : Step (w.setFd f.fileHandle (some ⟨ino,length,accessMode⟩))
      (.lseek f.fileHandle offset .seekSet) ⟨offset,[],{}⟩ w := by
    simpa [Description.seekTarget,World.setFd_same w _ _ described] using
      Step.lseek (show (w.setFd f.fileHandle (some ⟨ino,length,accessMode⟩)).fds f.fileHandle =
        some ⟨ino,length,accessMode⟩ by simp)
        (show 0 ≤ Description.seekTarget _ _ offset .seekSet by
          simp only [Description.seekTarget]; omega)
  rw [size_holding holding]
  exact .call rfl current (.call rfl ending (.call rfl back (.pure _ _)))

/-- `Size` on an open `File` whose descriptor refers to a file of length `L` at offset `p`:
under POSIX and with no other process acting it has a run, and every run returns `L`,
leaves the world as it was, and seeks to `p`, `L` and `p` again; a later `Tell` returns `p`. -/
theorem size_pure_query (f : File) (w : World) (description : Description)
    (holding : f.fileHandle ≠ -1) (described : w.fds f.fileHandle = some description) :
    (∃ events, Exec Step Eq f.size w events ((w.inodes description.ino).data.length : Int) w) ∧
      ∀ events size w', Exec Step Eq f.size w events size w' →
        size = (w.inodes description.ino).data.length ∧ w' = w ∧
        events.map (fun event => event.reply.ret) =
          [(description.offset : Int),(w.inodes description.ino).data.length,description.offset] ∧
        ∀ events' position w'', Exec Step Eq f.tell w' events' position w'' →
          position = (description.offset : Int) := by
  obtain ⟨ino,offset,accessMode⟩ := description
  have run := size_run holding described
  refine ⟨⟨_,run⟩,fun events size w' ran => ?_⟩
  obtain ⟨rfl,rfl,rfl⟩ := Exec.unique (size_functional holding) ran run
  exact ⟨rfl,rfl,rfl,fun events' position w'' told =>
    (Exec.unique tell_functional told (tell_run holding described)).2.1⟩

/-- Three bytes, and descriptor 3 open on them at offset 5, past the end. -/
def pastEnd : World where
  names _ := none
  inodes _ := ⟨[1,2,3],0o600,0,0,0⟩
  fds fd := if fd = 3 then some ⟨0,5,.oRdonly⟩ else none
  clock := 0

theorem size_pure_query_past_end :
    (3 : Int) ≠ -1 ∧ pastEnd.fds 3 = some ⟨0,5,.oRdonly⟩ ∧
      ((∃ events, Exec Step Eq (File.mk 3 ⟨"f"⟩).size pastEnd events (3 : Int) pastEnd) ∧
        ∀ events size w', Exec Step Eq (File.mk 3 ⟨"f"⟩).size pastEnd events size w' →
          size = 3 ∧ w' = pastEnd ∧ events.map (fun event => event.reply.ret) = [5,3,5] ∧
          ∀ events' position w'', Exec Step Eq (File.mk 3 ⟨"f"⟩).tell w' events' position w'' →
            position = 5) :=
  ⟨by decide,rfl,size_pure_query ⟨3,⟨"f"⟩⟩ pastEnd ⟨0,5,.oRdonly⟩ (by decide) rfl⟩

end Ckcore.File
