import Ckcore.File.Descriptors

/-! Several `File`s of one process share its descriptor table. Whatever the kernel answers
and whatever other processes do, the member functions of one never change the entry of a
descriptor another holds: each acts only on its own descriptor, and `open(2)` hands out a
free one. So, from new `File`s, after every interleaving of their member functions the
descriptors they hold are open and no two of them hold the same one. -/
namespace Ckcore.File
open Posix

variable {Tm : Type} (localtime : Int → Option Tm) {kernel : World → Syscall → Reply → World → Prop}
  {env : World → World → Prop} {f f₁ : File} {w w' : World} {events : List Event}

theorem close_handle {closed : Bool} (ran : Exec kernel env f.close w events (closed,f₁) w') :
    f₁.fileHandle = f.fileHandle ∨ f₁.fileHandle = -1 := by
  cases closed
  · exact .inl (by rw [(close_result ran).2 rfl])
  · exact .inr (by rw [(close_result ran).1 rfl])

theorem open_handle {fileMode : FileMode} {opened : Bool}
    (ran : Exec Kernel env (f.open fileMode) w events (opened,f₁) w') :
    f₁.fileHandle = f.fileHandle ∨ f₁.fileHandle = -1 ∨
      ∃ event ∈ events, event.before.fds f₁.fileHandle = none := by
  obtain ⟨first,closed,f₂,mid,closing,rest⟩ := open_exec ran
  have kept : f₂.fileHandle = f.fileHandle ∨ f₂.fileHandle = -1 := by
    split_ifs at closing
    · exact close_handle closing
    · cases (Exec.pure_iff.mp closing).2.1
      exact .inl rfl
  rcases rest with ⟨-,equal,-⟩ | ⟨-,second,reply,opening,rfl,equal⟩
  · cases equal
    exact kept.imp_right .inl
  obtain ⟨before,-,answer,rfl⟩ := Exec.sys_iff.mp opening
  obtain ⟨flags,mode,same⟩ := f₂.openRequest_open fileMode
  rw [same] at answer
  cases equal
  rcases answer.open_cases with ⟨failed,-⟩ | ⟨fd,ino,returned,lowest,-⟩
  · exact .inr (.inl failed)
  · exact .inr (.inr ⟨_,List.mem_append_right _ (List.mem_singleton_self _),
      by simpa [returned] using lowest.2.1⟩)

theorem remove_handle {removed : Bool} (ran : Exec kernel env f.remove w events (removed,f₁) w') :
    f₁.fileHandle = f.fileHandle ∨ f₁.fileHandle = -1 := by
  obtain ⟨first,closed,f₂,mid,second,reply,closing,-,-,equal⟩ := remove_exec ran
  cases equal
  exact close_handle closing

theorem rename_handle {newFilePath : Path} {renamed : Bool}
    (ran : Exec kernel env (f.rename newFilePath) w events (renamed,f₁) w') :
    f₁.fileHandle = f.fileHandle ∨ f₁.fileHandle = -1 := by
  obtain ⟨first,taken,mid,-,rest⟩ := rename_exec ran
  rcases rest with ⟨-,equal,-⟩ | ⟨-,second,closed,f₂,mid₁,third,reply,closing,-,-,equal⟩
  · cases equal
    exact .inl rfl
  · have kept : f₂.fileHandle = f.fileHandle ∨ f₂.fileHandle = -1 := close_handle closing
    split_ifs at equal <;> cases equal <;> exact kept

theorem run_handle {op : Op Tm} {outcome : Outcome Tm}
    (ran : Exec Kernel env (op.run localtime f) w events (outcome,f₁) w') :
    f₁.fileHandle = f.fileHandle ∨ f₁.fileHandle = -1 ∨
      ∃ event ∈ events, event.before.fds f₁.fileHandle = none := by
  by_cases keeps : op.Keeps
  · exact .inl (by rw [run_keeps localtime keeps ran])
  rcases run_changes localtime keeps ran with
    ⟨_,_,rfl,rfl,called⟩ | ⟨_,rfl,rfl,called⟩ | ⟨_,rfl,rfl,called⟩ | ⟨_,_,rfl,rfl,called⟩
  exacts [open_handle called,(close_handle called).imp_right .inl,
    (remove_handle called).imp_right .inl,(rename_handle called).imp_right .inl]

theorem run_keeps_other {op : Op Tm} {outcome : Outcome Tm}
    (ran : Exec Kernel (Relation.ReflTransGen Client) (op.run localtime f) w events (outcome,f₁) w')
    {fd : Int} (other : fd ≠ f.fileHandle) (described : w.fds fd ≠ none) :
    (∀ event ∈ events, event.before.fds fd = w.fds fd) ∧ w'.fds fd = w.fds fd :=
  Exec.along (fun w₁ => w₁.fds fd = w.fds fd) (fun event => event.request.descriptor ≠ some fd)
    (fun _ _ moved same => (congrFun (Client.star_fds moved) fd).trans same)
    (fun _ _ _ _ answer untouched same =>
      (answer.keeps_described untouched (by rwa [same])).trans same)
    ran (fun event mem aimed => other (Exec.calls ran (run_targets localtime f op) event mem fd aimed).1)
    rfl

variable {ι : Type} [DecidableEq ι]

/-- The descriptors several `File`s hold are open, and no two hold the same one. -/
def Apart (w : World) (files : ι → File) : Prop :=
  (∀ i, Valid w (files i)) ∧
    ∀ i j, i ≠ j → (files i).fileHandle ≠ -1 → (files i).fileHandle ≠ (files j).fileHandle

theorem Apart.step {files : ι → File} {i : ι} {op : Op Tm} {outcome : Outcome Tm}
    (apart : Apart w files)
    (ran : Exec Kernel (Relation.ReflTransGen Client) (op.run localtime (files i)) w events
      (outcome,f₁) w') :
    (ClosesSucceed events → Apart w' (Function.update files i f₁)) ∧
      ∀ j, j ≠ i → (files j).fileHandle ≠ -1 → w'.fds (files j).fileHandle = w.fds (files j).fileHandle := by
  have others : ∀ j, j ≠ i → (files j).fileHandle ≠ -1 →
      (∀ event ∈ events, event.before.fds (files j).fileHandle = w.fds (files j).fileHandle) ∧
        w'.fds (files j).fileHandle = w.fds (files j).fileHandle := fun j other held =>
    run_keeps_other localtime ran (apart.2 j i other held) ((apart.1 j).resolve_left held)
  have fresh : ∀ j, j ≠ i → (files j).fileHandle ≠ -1 → f₁.fileHandle ≠ (files j).fileHandle := by
    intro j other held same
    rcases run_handle localtime ran with kept | cleared | ⟨event,mem,free⟩
    · exact apart.2 j i other held (same.symm.trans kept)
    · exact held (same.symm.trans cleared)
    · rw [same,(others j other held).1 event mem] at free
      exact (apart.1 j).resolve_left held free
  refine ⟨fun closes => ⟨fun k => ?_,fun k l distinct held => ?_⟩,fun j other held => (others j other held).2⟩
  · by_cases same : k = i
    · subst same
      rw [Function.update_same]
      exact ((run_usesHeld localtime ran).2 (apart.1 k)).2 closes
    · rw [Function.update_noteq same]
      by_cases held : (files k).fileHandle = -1
      · exact .inl held
      · exact .inr (by rw [(others k same held).2]; exact (apart.1 k).resolve_left held)
  · by_cases left : k = i <;> by_cases right : l = i
    · exact absurd (left.trans right.symm) distinct
    · subst left
      rw [Function.update_same,Function.update_noteq right] at *
      by_cases unheld : (files l).fileHandle = -1
      · rw [unheld]
        exact held
      · exact fresh l right unheld
    · subst right
      rw [Function.update_same,Function.update_noteq left] at *
      exact (fresh k left held).symm
    · rw [Function.update_noteq left,Function.update_noteq right] at *
      exact apart.2 k l distinct held

/-- Runs of the member functions of several `File`s of one process, interleaved: each step
is a member function of one of them, against `Kernel`, with other processes acting before
each system call. -/
inductive Shared : (ι → File) → World → List (ι × Op Tm × List Event) → (ι → File) → World → Prop
  | nil (files : ι → File) (w : World) : Shared files w [] files w
  | step {files : ι → File} {w : World} {i : ι} {op : Op Tm} {events : List Event}
      {outcome : Outcome Tm} {f₁ : File} {w₁ : World} {steps : List (ι × Op Tm × List Event)}
      {files' : ι → File} {w' : World}
      (ran : Exec Kernel (Relation.ReflTransGen Client) (op.run localtime (files i)) w events
        (outcome,f₁) w₁)
      (rest : Shared (Function.update files i f₁) w₁ steps files' w') :
      Shared files w ((i,op,events) :: steps) files' w'

theorem Shared.apart {files files' : ι → File} {steps : List (ι × Op Tm × List Event)}
    (run : Shared localtime files w steps files' w')
    (closes : ClosesSucceed (steps.flatMap fun step => step.2.2)) (apart : Apart w files) :
    Apart w' files' := by
  induction run with
  | nil => exact apart
  | step ran _ ih =>
    rw [List.flatMap_cons,closesSucceed_append] at closes
    exact ih closes.2 ((apart.step localtime ran).1 closes.1)

/-- Several `File`s of one process do not interfere: after every interleaving of their member
functions from new `File`s whose `close(2)` calls all succeed, whatever else the kernel
answers and whatever other processes do, the descriptors they hold are open and pairwise
distinct, and a member function of one leaves the descriptor entry of every other as it was.
A failed `close(2)` that released a descriptor voids this: the `File` keeps the number, the
next `open(2)` of another `File` may get it, and the first `File`'s next `Close` closes it. -/
theorem files_apart (paths : ι → Path) (w : World) (steps : List (ι × Op Tm × List Event))
    (files : ι → File) (w' : World)
    (run : Shared localtime (fun i => ofPath (paths i)) w steps files w')
    (closes : ClosesSucceed (steps.flatMap fun step => step.2.2)) :
    (∀ i, (files i).test = true → w'.fds (files i).fileHandle ≠ none) ∧
    (∀ i j, i ≠ j → (files i).test = true → (files i).fileHandle ≠ (files j).fileHandle) ∧
    ∀ i (op : Op Tm) events outcome f₁ w'', Exec Kernel (Relation.ReflTransGen Client)
      (op.run localtime (files i)) w' events (outcome,f₁) w'' →
      ∀ j, j ≠ i → (files j).test = true → w''.fds (files j).fileHandle = w'.fds (files j).fileHandle := by
  have apart := run.apart localtime closes ⟨fun _ => .inl rfl,fun _ _ _ held => absurd rfl held⟩
  have held : ∀ i, (files i).test = true → (files i).fileHandle ≠ -1 := fun i holding => by
    simpa [test] using holding
  exact ⟨fun i holding => (apart.1 i).resolve_left (held i holding),
    fun i j distinct holding => apart.2 i j distinct (held i holding),
    fun i _ _ _ _ _ ran j other holding => (apart.step localtime ran).2 j other (held j holding)⟩

theorem two_opens :
    Shared some (fun _ : Bool => ofPath ⟨"f"⟩) removeStart
      [(true,.open .ckOpenRead,[⟨removeStart,.open "f" ⟨.oRdonly,false⟩ 0,⟨0,[],{}⟩⟩]),
        (false,.open .ckOpenRead,[⟨removeStart.setFd 0 (some ⟨0,0,.oRdonly⟩),
          .open "f" ⟨.oRdonly,false⟩ 0,⟨1,[],{}⟩⟩])]
      (Function.update (Function.update (fun _ => ofPath ⟨"f"⟩) true ⟨0,⟨"f"⟩⟩) false ⟨1,⟨"f"⟩⟩)
      ((removeStart.setFd 0 (some ⟨0,0,.oRdonly⟩)).setFd 1 (some ⟨0,0,.oRdonly⟩)) := by
  have lowest : (removeStart.setFd 0 (some ⟨0,0,.oRdonly⟩)).Lowest 1 :=
    ⟨by decide,by simp [removeStart],fun k nonnegative below => by
      obtain rfl : k = 0 := by omega
      simp⟩
  exact .step (open_read_interleaved some)
    (.step (.call .refl (.of_step (.openLinked rfl (by decide) lowest)) (.pure _ _)) (.nil _ _))

theorem files_apart_two_opens :
    let files := Function.update (Function.update (fun _ => ofPath ⟨"f"⟩) true ⟨0,⟨"f"⟩⟩) false
      ⟨1,⟨"f"⟩⟩
    let w' := (removeStart.setFd 0 (some ⟨0,0,.oRdonly⟩)).setFd 1 (some ⟨0,0,.oRdonly⟩)
    ClosesSucceed [⟨removeStart,.open "f" ⟨.oRdonly,false⟩ 0,⟨0,[],{}⟩⟩,
      ⟨removeStart.setFd 0 (some ⟨0,0,.oRdonly⟩),.open "f" ⟨.oRdonly,false⟩ 0,⟨1,[],{}⟩⟩] ∧
    (files true).test = true ∧ (files false).test = true ∧
    (∀ i, (files i).test = true → w'.fds (files i).fileHandle ≠ none) ∧
    (∀ i j, i ≠ j → (files i).test = true → (files i).fileHandle ≠ (files j).fileHandle) ∧
    ∀ i (op : Op Int) events outcome f₁ w'', Exec Kernel (Relation.ReflTransGen Client)
      (op.run some (files i)) w' events (outcome,f₁) w'' →
      ∀ j, j ≠ i → (files j).test = true → w''.fds (files j).fileHandle = w'.fds (files j).fileHandle :=
  have opens : ClosesSucceed [⟨removeStart,.open "f" ⟨.oRdonly,false⟩ 0,⟨0,[],{}⟩⟩,
      ⟨removeStart.setFd 0 (some ⟨0,0,.oRdonly⟩),.open "f" ⟨.oRdonly,false⟩ 0,⟨1,[],{}⟩⟩] :=
    fun _ mem _ closing => by
      simp only [List.mem_cons,List.not_mem_nil,or_false] at mem
      rcases mem with rfl | rfl <;> cases closing
  ⟨opens,by decide,by decide,files_apart some _ _ _ _ _ two_opens (by simpa using opens)⟩

end Ckcore.File
