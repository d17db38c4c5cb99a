import Mathlib.Tactic.Set
import Ckcore.File.Descriptors

/-! What the member functions do to the names of the filesystem. A run of member functions
other than `Write`, `Remove` and `Rename` leaves every file linked at the start where it was,
with its bytes, whatever the kernel answers: `Open` never truncates. From every state a run
whose `close(2)` calls succeeded can reach, with no other process acting during the call
and the kernel answering as POSIX specifies, `Remove`, `Rename` and `Open` have a run, and
every run has the effect on the names and on `this` that `file.cc` gives it; `Access`
answers as `Open` does on an existing file; and `Tell` after `Seek` returns the offset
`Seek` moved to, or the one it left. -/
namespace Ckcore.File
open Posix

variable {Tm : Type} (localtime : Int → Option Tm)

theorem openRequest_unaltering (f : File) (fileMode : FileMode) : ¬ (f.openRequest fileMode).Alters := by
  cases fileMode <;> exact nofun

theorem run_requests (f : File) (op : Op Tm) :
    (op.run localtime f).Calls fun request => (request.Alters → op.Alters) ∧
      ((∃ pathname flags mode, request = .open pathname flags mode) → op.Opens) := by
  have plain : ∀ request : Syscall, ¬ request.Alters →
      (∀ pathname flags mode, request ≠ .open pathname flags mode) → (request.Alters → op.Alters) ∧
        ((∃ pathname flags mode, request = .open pathname flags mode) → op.Opens) :=
    fun _ stays unopened => ⟨fun altered => absurd altered stays,
      fun ⟨pathname,flags,mode,same⟩ => absurd same (unopened pathname flags mode)⟩
  have closing : f.close.Calls fun request => (request.Alters → op.Alters) ∧
      ((∃ pathname flags mode, request = .open pathname flags mode) → op.Opens) :=
    guarded_calls (plain _ nofun fun _ _ _ => nofun)
  cases op <;> unfold Op.run
  case «open» fileMode =>
    refine .bind (.bind ?_ fun ⟨closed,f₁⟩ => ?_) fun _ => .pure _
    · split_ifs
      exacts [closing,.pure _]
    · dsimp only
      split_ifs
      exacts [.bind (.sys ⟨fun altered => absurd altered (openRequest_unaltering f₁ fileMode),
        fun _ => trivial⟩) fun _ => .pure _,.pure _]
  case close => exact .bind closing fun _ => .pure _
  case test => exact .pure _
  case seek => exact .bind (guarded_calls (plain _ nofun fun _ _ _ => nofun)) fun _ => .pure _
  case tell => exact .bind (guarded_calls (plain _ nofun fun _ _ _ => nofun)) fun _ => .pure _
  case read => exact .bind (guarded_calls (plain _ nofun fun _ _ _ => nofun)) fun _ => .pure _
  case write =>
    exact .bind (guarded_calls ⟨fun _ => trivial,fun ⟨_,_,_,same⟩ => nomatch same⟩) fun _ => .pure _
  case exist =>
    refine .bind ?_ fun _ => .pure _
    unfold exist
    split_ifs
    exacts [.bind (.sys (plain _ nofun fun _ _ _ => nofun)) fun _ => .pure _,
      .bind (.sys (plain _ nofun fun _ _ _ => nofun)) fun _ => .pure _]
  case remove =>
    exact .bind (.bind closing fun _ =>
      .bind (.sys ⟨fun _ => trivial,fun ⟨_,_,_,same⟩ => nomatch same⟩) fun _ => .pure _) fun _ => .pure _
  case rename =>
    refine .bind (.bind (.bind (.sys (plain _ nofun fun _ _ _ => nofun)) fun _ => .pure _) fun _ => ?_)
      fun _ => .pure _
    split_ifs
    exacts [.pure _,.bind closing fun _ =>
      .bind (.sys ⟨fun _ => trivial,fun ⟨_,_,_,same⟩ => nomatch same⟩) fun _ => .pure _]
  case time =>
    refine .bind ?_ fun _ => .pure _
    unfold time
    split_ifs
    exacts [.bind (.sys (plain _ nofun fun _ _ _ => nofun)) fun _ => .pure _,
      .bind (.sys (plain _ nofun fun _ _ _ => nofun)) fun _ => .pure _]
  case access =>
    exact .bind (.bind (.sys (plain _ nofun fun _ _ _ => nofun)) fun _ => .pure _) fun _ => .pure _
  case size =>
    refine .bind ?_ fun _ => .pure _
    unfold size
    split_ifs
    exacts [.bind (.sys (plain _ nofun fun _ _ _ => nofun)) fun _ => .pure _,
      .bind (guarded_calls (plain _ nofun fun _ _ _ => nofun)) fun _ =>
      .bind (guarded_calls (plain _ nofun fun _ _ _ => nofun)) fun _ =>
      .bind (guarded_calls (plain _ nofun fun _ _ _ => nofun)) fun _ => .pure _]

theorem Session.calls {kernel : World → Syscall → Reply → World → Prop}
    {env : World → World → Prop} {allowed : Syscall → Prop} {f f' : File} {w w' : World}
    {steps : List (Op Tm × List Event)} (run : Session localtime kernel env f w steps f' w')
    (only : ∀ step ∈ steps, ∀ f : File, (step.1.run localtime f).Calls allowed) :
    ∀ event ∈ steps.flatMap Prod.snd, allowed event.request := by
  induction run with
  | nil => exact fun _ absent => absurd absent (List.not_mem_nil _)
  | step ran _ ih =>
    simp only [List.flatMap_cons,List.mem_append]
    rintro event (mem | mem)
    · exact Exec.calls ran (only _ (List.mem_cons_self _ _) _) event mem
    · exact ih (fun step mem f => only step (List.mem_cons_of_mem _ mem) f) event mem

/-- No truncation: in a run of member functions other than `Write`, `Remove` and `Rename`,
whatever the kernel answers and with no other process acting, every file linked at the start
is linked where it was, with the bytes it had; `Open(ckOPEN_WRITE)` on an existing file
leaves its content alone. -/
theorem files_kept (f : File) (w : World) (steps : List (Op Tm × List Event)) (f' : File)
    (w' : World) (run : Session localtime Kernel Eq f w steps f' w')
    (stays : ∀ step ∈ steps, ¬ step.1.Alters) (name : String) (ino : Nat)
    (linked : w.names name = some ino) :
    w'.names name = some ino ∧ (w'.inodes ino).data = (w.inodes ino).data :=
  Session.along localtime
    (fun w₁ => w₁.names name = some ino ∧ (w₁.inodes ino).data = (w.inodes ino).data)
    (fun event => ¬ event.request.Alters) (fun _ _ (same : _ = _) kept => by subst same; exact kept)
    (fun _ _ _ _ answer stays kept => (answer.keeps_file stays kept.1).imp_right (·.trans kept.2))
    run (Session.calls localtime run fun step mem f => Prog.Calls.mono (run_requests localtime f step.1)
      fun _ made altered => stays step mem (made.1 altered))
    ⟨linked,rfl⟩

theorem open_write_step :
    Exec Kernel Eq (Op.run localtime (ofPath ⟨"f"⟩) (.open .ckOpenWrite)) removeStart
      [⟨removeStart,.open "f" ⟨.oWronly,true⟩ (sIrusr ||| sIwusr),⟨0,[],{}⟩⟩] (.bool true,⟨0,⟨"f"⟩⟩)
      (removeStart.setFd 0 (some ⟨0,0,.oWronly⟩)) :=
  .call rfl (.of_step (.openLinked rfl (by decide) (.zero rfl))) (.pure _ _)

theorem files_kept_open_write :
    ∃ steps f' w', Session some Kernel Eq (ofPath ⟨"f"⟩) removeStart steps f' w' ∧
      (∀ step ∈ steps, ¬ step.1.Alters) ∧ f'.test = true ∧
      w'.names "f" = some 0 ∧ (w'.inodes 0).data = (removeStart.inodes 0).data :=
  ⟨_,_,_,.step (open_write_step some) (.nil _ _),by simp [Op.Alters],by decide,
    files_kept some _ _ _ _ _ (.step (open_write_step some) (.nil _ _)) (by simp [Op.Alters])
      "f" 0 rfl⟩

section Alone

variable {f f₁ : File} {w w' : World} {events : List Event}

theorem close_posix {closed : Bool} (ran : Exec Step Eq f.close w events (closed,f₁) w')
    (valid : Valid w f) : f₁ = {f with fileHandle := -1} ∧
      (f.fileHandle = -1 ∧ closed = false ∧ w' = w ∨
        f.fileHandle ≠ -1 ∧ closed = true ∧ w' = w.setFd f.fileHandle none) := by
  rcases close_exec ran with ⟨unheld,equal,-,rfl⟩ | ⟨holding,reply,called,equal⟩
  · cases equal
    exact ⟨by rw [← unheld],.inl ⟨unheld,rfl,rfl⟩⟩
  obtain ⟨_,rfl,answer,rfl⟩ := Exec.sys_iff.mp called
  cases answer with
  | closeOpen =>
    rw [if_pos rfl] at equal
    cases equal
    exact ⟨rfl,.inr ⟨holding,rfl,rfl⟩⟩
  | closeBadf closed => exact absurd closed (valid.resolve_left holding)

theorem close_posix_names {closed : Bool} (ran : Exec Step Eq f.close w events (closed,f₁) w')
    (valid : Valid w f) : w'.names = w.names ∧ w'.inodes = w.inodes := by
  rcases (close_posix ran valid).2 with ⟨-,-,rfl⟩ | ⟨-,-,rfl⟩ <;> exact ⟨rfl,rfl⟩

theorem open_posix {fileMode : FileMode} {opened : Bool}
    (ran : Exec Step Eq (f.open fileMode) w events (opened,f₁) w') (valid : Valid w f) :
    ∃ mid reply, mid.names = w.names ∧ mid.inodes = w.inodes ∧
      Step mid (f.openRequest fileMode) reply w' ∧ opened = decide (reply.ret ≠ -1) ∧
      f₁ = {f with fileHandle := reply.ret} := by
  obtain ⟨first,closed,f₂,mid,closing,rest⟩ := open_exec ran
  have closed_posix : closed = true ∧ f₂ = {f with fileHandle := -1} ∧
      mid.names = w.names ∧ mid.inodes = w.inodes := by
    split_ifs at closing with holding
    · obtain ⟨rfl,⟨unheld,-⟩ | ⟨-,rfl,-⟩⟩ := close_posix closing valid
      · exact absurd unheld holding
      · exact ⟨rfl,rfl,close_posix_names closing valid⟩
    · obtain ⟨rfl,equal,rfl⟩ := Exec.pure_iff.mp closing
      cases equal
      exact ⟨rfl,by rw [← not_not.mp holding],rfl,rfl⟩
  obtain ⟨rfl,rfl,names,inodes⟩ := closed_posix
  rcases rest with ⟨unclosed,-⟩ | ⟨-,second,reply,called,rfl,equal⟩
  · cases unclosed
  obtain ⟨_,rfl,answer,rfl⟩ := Exec.sys_iff.mp called
  cases equal
  exact ⟨mid,reply,names,inodes,answer,rfl,rfl⟩

theorem remove_posix {removed : Bool} (ran : Exec Step Eq f.remove w events (removed,f₁) w')
    (valid : Valid w f) :
    removed = (w.names f.filePath.name).isSome ∧ f₁ = {f with fileHandle := -1} ∧
      w'.names = Function.update w.names f.filePath.name none ∧
      (f.test = true → w'.fds f.fileHandle = none) := by
  obtain ⟨first,closed,f₂,mid,second,reply,closing,called,rfl,equal⟩ := remove_exec ran
  obtain ⟨rfl,closed_cases⟩ := close_posix closing valid
  have names : mid.names = w.names := (close_posix_names closing valid).1
  have released : f.test = true → mid.fds f.fileHandle = none := fun holding => by
    rcases closed_cases with ⟨unheld,-⟩ | ⟨-,-,rfl⟩
    · simp [test,unheld] at holding
    · simp
  obtain ⟨_,rfl,answer,rfl⟩ := Exec.sys_iff.mp called
  cases equal
  cases answer with
  | unlink linked =>
    rw [names] at linked
    exact ⟨by simp [linked],rfl,by simp [names],released⟩
  | unlinkNoent absent =>
    rw [names] at absent
    refine ⟨by simp [absent,Reply.failure],rfl,?_,released⟩
    rw [names,← absent,Function.update_eq_self]

theorem rename_posix {newFilePath : Path} {renamed : Bool}
    (ran : Exec Step Eq (f.rename newFilePath) w events (renamed,f₁) w') (valid : Valid w f) :
    (w.names newFilePath.name ≠ none → renamed = false ∧ f₁ = f ∧ w' = w) ∧
    (w.names newFilePath.name = none →
      renamed = (w.names f.filePath.name).isSome ∧ f₁.fileHandle = -1 ∧
      (renamed = true → f₁.filePath = newFilePath ∧
        w'.names = Function.update (Function.update w.names f.filePath.name none)
          newFilePath.name (w.names f.filePath.name)) ∧
      (renamed = false → f₁.filePath = f.filePath ∧ w'.names = w.names)) := by
  obtain ⟨first,taken,mid,probing,rest⟩ := rename_exec ran
  obtain ⟨reply,probed,rfl⟩ := existAt_exec probing
  obtain ⟨_,rfl,answer,rfl⟩ := Exec.sys_iff.mp probed
  cases answer with
  | stat linked =>
    rcases rest with ⟨-,equal,-,rfl⟩ | ⟨untaken,-⟩
    · cases equal
      exact ⟨fun _ => ⟨rfl,rfl,rfl⟩,fun absent => by simp [absent] at linked⟩
    · cases untaken
  | statNoent absent =>
    rcases rest with ⟨taken,-⟩ | ⟨-,second,closed,f₂,mid₁,third,reply,closing,called,rfl,equal⟩
    · cases taken
    obtain ⟨rfl,-⟩ := close_posix closing valid
    have names : mid₁.names = w.names := (close_posix_names closing valid).1
    obtain ⟨_,rfl,answer,rfl⟩ := Exec.sys_iff.mp called
    refine ⟨fun taken => absurd absent taken,fun _ => ?_⟩
    cases answer with
    | renameSame linked same => rw [names,absent] at same; cases same
    | rename linked other =>
      rw [if_pos rfl] at equal
      cases equal
      rw [names] at linked
      exact ⟨by simp [linked],rfl,fun _ => ⟨rfl,by simp [names,linked]⟩,nofun⟩
    | renameNoent missing =>
      rw [if_neg (by decide)] at equal
      cases equal
      rw [names] at missing
      exact ⟨by simp [missing],rfl,nofun,fun _ => ⟨rfl,names⟩⟩

end Alone

/-- `Remove` from every state a run whose `close(2)` calls succeeded can reach, the kernel
answering as POSIX specifies and no other process acting: it has a run, and every run returns true exactly when a file was
linked at the path, unlinks the path and no other name, and leaves `this` with no
descriptor, the one it held closed. -/
theorem remove_after_run (filePath : Path) (w : World) (steps : List (Op Tm × List Event))
    (f : File) (w' : World)
    (run : Session localtime Kernel (Relation.ReflTransGen Client) (ofPath filePath) w steps
      f w') (closes : ClosesSucceed (steps.flatMap Prod.snd)) :
    (∃ events removed f₁ w'', Exec Step Eq f.remove w' events (removed,f₁) w'') ∧
    ∀ events removed f₁ w'', Exec Step Eq f.remove w' events (removed,f₁) w'' →
      removed = (w'.names f.filePath.name).isSome ∧ f₁ = {f with fileHandle := -1} ∧
      w''.names = Function.update w'.names f.filePath.name none ∧
      (f.test = true → w''.fds f.fileHandle = none) := by
  have valid := Session.valid localtime run closes
  refine ⟨?_,fun events removed f₁ w'' ran => remove_posix ran valid⟩
  have total : f.remove.Calls (Total Step) :=
    .bind (guarded_calls (Step.total fun _ _ _ => nofun)) fun _ =>
      .bind (.sys (Step.total fun _ _ _ => nofun)) fun _ => .pure _
  obtain ⟨events,⟨removed,f₁⟩,w'',ran⟩ := Exec.exists_run total w'
  exact ⟨events,removed,f₁,w'',ran⟩

theorem remove_after_open :
    ∃ steps f w', Session some Kernel (Relation.ReflTransGen Client) (ofPath ⟨"f"⟩) removeStart
      steps f w' ∧ ClosesSucceed (steps.flatMap Prod.snd) ∧ f.test = true ∧
      (∃ events removed f₁ w'', Exec Step Eq f.remove w' events (removed,f₁) w'') ∧
      ∀ events removed f₁ w'', Exec Step Eq f.remove w' events (removed,f₁) w'' →
        removed = (w'.names f.filePath.name).isSome ∧ f₁ = {f with fileHandle := -1} ∧
        w''.names = Function.update w'.names f.filePath.name none ∧
        (f.test = true → w''.fds f.fileHandle = none) :=
  ⟨_,_,_,.step (open_read_interleaved some) (.nil _ _),by simpa using opened_closes,by decide,
    remove_after_run some _ _ _ _ _ (.step (open_read_interleaved some) (.nil _ _))
      (by simpa using opened_closes)⟩

/-- `Rename` from every state a run whose `close(2)` calls succeeded can reach, the kernel
answering as POSIX specifies and no other process acting: it has a run; when a file is at the new path, every run returns false
and changes nothing, the descriptor still held; otherwise every run leaves `this` with no
descriptor, and returns true exactly when a file was at the old path, which then moves to
the new one, and `this` with it. -/
theorem rename_after_run (filePath : Path) (w : World) (steps : List (Op Tm × List Event))
    (f : File) (w' : World)
    (run : Session localtime Kernel (Relation.ReflTransGen Client) (ofPath filePath) w steps
      f w') (closes : ClosesSucceed (steps.flatMap Prod.snd)) (newFilePath : Path) :
    (∃ events renamed f₁ w'', Exec Step Eq (f.rename newFilePath) w' events (renamed,f₁) w'') ∧
    ∀ events renamed f₁ w'', Exec Step Eq (f.rename newFilePath) w' events (renamed,f₁) w'' →
      (w'.names newFilePath.name ≠ none → renamed = false ∧ f₁ = f ∧ w'' = w') ∧
      (w'.names newFilePath.name = none →
        renamed = (w'.names f.filePath.name).isSome ∧ f₁.fileHandle = -1 ∧
        (renamed = true → f₁.filePath = newFilePath ∧
          w''.names = Function.update (Function.update w'.names f.filePath.name none)
            newFilePath.name (w'.names f.filePath.name)) ∧
        (renamed = false → f₁.filePath = f.filePath ∧ w''.names = w'.names)) := by
  have valid := Session.valid localtime run closes
  refine ⟨?_,fun events renamed f₁ w'' ran => rename_posix ran valid⟩
  have total : (f.rename newFilePath).Calls (Total Step) :=
    .bind (.bind (.sys (Step.total fun _ _ _ => nofun)) fun _ => .pure _) fun taken => by
      split_ifs
      exacts [.pure _,.bind (guarded_calls (Step.total fun _ _ _ => nofun)) fun _ =>
        .bind (.sys (Step.total fun _ _ _ => nofun)) fun _ => .pure _]
  obtain ⟨events,⟨renamed,f₁⟩,w'',ran⟩ := Exec.exists_run total w'
  exact ⟨events,renamed,f₁,w'',ran⟩

theorem rename_after_open :
    ∃ steps f w', Session some Kernel (Relation.ReflTransGen Client) (ofPath ⟨"f"⟩) removeStart
      steps f w' ∧ ClosesSucceed (steps.flatMap Prod.snd) ∧ f.test = true ∧
      (∃ events renamed f₁ w'', Exec Step Eq (f.rename ⟨"g"⟩) w' events (renamed,f₁) w'') ∧
      ∀ events renamed f₁ w'', Exec Step Eq (f.rename ⟨"g"⟩) w' events (renamed,f₁) w'' →
        (w'.names "g" ≠ none → renamed = false ∧ f₁ = f ∧ w'' = w') ∧
        (w'.names "g" = none →
          renamed = (w'.names f.filePath.name).isSome ∧ f₁.fileHandle = -1 ∧
          (renamed = true → f₁.filePath = ⟨"g"⟩ ∧
            w''.names = Function.update (Function.update w'.names f.filePath.name none)
              "g" (w'.names f.filePath.name)) ∧
          (renamed = false → f₁.filePath = f.filePath ∧ w''.names = w'.names)) :=
  ⟨_,_,_,.step (open_read_interleaved some) (.nil _ _),by simpa using opened_closes,by decide,
    rename_after_run some _ _ _ _ _ (.step (open_read_interleaved some) (.nil _ _))
      (by simpa using opened_closes) ⟨"g"⟩⟩

/-- `Open` from every state a run whose `close(2)` calls succeeded can reach, the kernel
answering as POSIX specifies and no other process acting: with a descriptor free and an inode unused it has a run; every run keeps the
path; a failed one leaves `this` with no descriptor; a successful one leaves it holding a
descriptor at offset 0 on the file now linked at the path, which, when it was created, is
empty with owner read and write permission. -/
theorem open_after_run (filePath : Path) (w : World) (steps : List (Op Tm × List Event))
    (f : File) (w' : World)
    (run : Session localtime Kernel (Relation.ReflTransGen Client) (ofPath filePath) w steps
      f w') (closes : ClosesSucceed (steps.flatMap Prod.snd)) (fileMode : FileMode)
    (free : ∃ fd, 0 ≤ fd ∧ w'.fds fd = none) (spare : ∃ ino, w'.Unused ino) :
    (∃ events opened f₁ w'', Exec Step Eq (f.open fileMode) w' events (opened,f₁) w'') ∧
    ∀ events opened f₁ w'', Exec Step Eq (f.open fileMode) w' events (opened,f₁) w'' →
      f₁.filePath = f.filePath ∧ (opened = false → f₁.fileHandle = -1) ∧
      (opened = true → ∃ ino description, w''.names f.filePath.name = some ino ∧
        w''.fds f₁.fileHandle = some description ∧ description.ino = ino ∧ description.offset = 0 ∧
        (w'.names f.filePath.name = none →
          (w''.inodes ino).data = [] ∧ (w''.inodes ino).perm = sIrusr ||| sIwusr)) := by
  have valid := Session.valid localtime run closes
  refine ⟨?_,fun events opened f₁ w'' ran => ?_⟩
  · have closing : ∃ first mid, Exec Step Eq (if f.fileHandle ≠ -1 then f.close else pure (true,f))
        w' first (true,{f with fileHandle := -1}) mid ∧ (mid = w' ∨ mid = w'.setFd f.fileHandle none) := by
      split_ifs with holding
      · obtain ⟨description,described⟩ := Option.ne_none_iff_exists'.mp (valid.resolve_left holding)
        have closed : Exec Step Eq f.close w' [⟨w',.close f.fileHandle,⟨0,[],{}⟩⟩]
            (true,{f with fileHandle := -1}) (w'.setFd f.fileHandle none) := by
          rw [close,if_neg holding]
          exact Exec.sys_bind_iff.mpr ⟨w',_,_,[],rfl,.closeOpen described,.pure _ _,rfl⟩
        exact ⟨_,_,closed,.inr rfl⟩
      · rw [← not_not.mp holding]
        exact ⟨[],w',.pure _ _,.inl rfl⟩
    obtain ⟨first,mid,closing,cleared⟩ := closing
    have room : (∃ fd, 0 ≤ fd ∧ mid.fds fd = none) ∧ ∃ ino, mid.Unused ino := by
      rcases cleared with rfl | rfl
      · exact ⟨free,spare⟩
      obtain ⟨fd,nonnegative,unopened⟩ := free
      obtain ⟨ino,idle⟩ := spare
      exact ⟨⟨fd,nonnegative,by simp [Function.update_apply,unopened]⟩,ino,idle.setFd_none _⟩
    obtain ⟨flags,mode,same⟩ := ({f with fileHandle := -1} : File).openRequest_open fileMode
    have answered : ∃ reply w'', Step mid (.open f.filePath.name flags mode) reply w'' :=
      Step.open_total room.1 room.2
    obtain ⟨reply,w'',answer⟩ := answered
    rw [← same] at answer
    exact ⟨_,_,_,_,Exec.bind closing (Exec.sys_bind_iff.mpr ⟨mid,reply,w'',[],rfl,answer,.pure _ _,rfl⟩)⟩
  obtain ⟨mid,reply,names,-,answer,rfl,rfl⟩ := open_posix ran valid
  obtain ⟨flags,mode,same⟩ := f.openRequest_open fileMode
  rw [same] at answer
  refine ⟨rfl,fun failed => by simpa using failed,fun opened => ?_⟩
  rcases (Kernel.of_step answer).open_cases with ⟨failed,-⟩ |
    ⟨fd,ino,returned,-,⟨linked,rfl⟩ | ⟨creat,-,-,rfl⟩⟩
  · simp [failed] at opened
  · refine ⟨ino,⟨ino,0,flags.accessMode⟩,linked,by simp [returned],rfl,rfl,fun absent => ?_⟩
    rw [names,absent] at linked
    cases linked
  · have made : mode = sIrusr ||| sIwusr := by
      cases fileMode <;> cases same
      · cases creat
      · rfl
    exact ⟨ino,⟨ino,0,flags.accessMode⟩,by simp,by simp [returned],rfl,rfl,fun _ => by simp [made]⟩

theorem opened_room : (∃ fd, 0 ≤ fd ∧ (removeStart.setFd 0 (some ⟨0,0,.oRdonly⟩)).fds fd = none) ∧
    ∃ ino, (removeStart.setFd 0 (some ⟨0,0,.oRdonly⟩)).Unused ino := by
  refine ⟨⟨1,by decide,by simp [removeStart]⟩,1,fun name => ?_,fun fd description described => ?_⟩
  · simp only [World.setFd_names,removeStart]
    split_ifs <;> simp
  · simp only [World.setFd_fds,Function.update_apply,removeStart] at described
    split_ifs at described
    cases described
    decide

theorem open_after_open :
    ∃ steps f w', Session some Kernel (Relation.ReflTransGen Client) (ofPath ⟨"f"⟩) removeStart
      steps f w' ∧ ClosesSucceed (steps.flatMap Prod.snd) ∧ f.test = true ∧
      (∃ fd, 0 ≤ fd ∧ w'.fds fd = none) ∧ (∃ ino, w'.Unused ino) ∧
      (∃ events opened f₁ w'', Exec Step Eq (f.open .ckOpenWrite) w' events (opened,f₁) w'') ∧
      ∀ events opened f₁ w'', Exec Step Eq (f.open .ckOpenWrite) w' events (opened,f₁) w'' →
        f₁.filePath = f.filePath ∧ (opened = false → f₁.fileHandle = -1) ∧
        (opened = true → ∃ ino description, w''.names f.filePath.name = some ino ∧
          w''.fds f₁.fileHandle = some description ∧ description.ino = ino ∧
          description.offset = 0 ∧
          (w'.names f.filePath.name = none →
            (w''.inodes ino).data = [] ∧ (w''.inodes ino).perm = sIrusr ||| sIwusr)) :=
  ⟨_,_,_,.step (open_read_interleaved some) (.nil _ _),by simpa using opened_closes,by decide,
    opened_room.1,opened_room.2,open_after_run some _ _ _ _ _
      (.step (open_read_interleaved some) (.nil _ _)) (by simpa using opened_closes) .ckOpenWrite
      opened_room.1 opened_room.2⟩

/-- `Access` from every state a run whose `close(2)` calls succeeded can reach, the kernel
answering as POSIX specifies and no other process acting, returns one value, and every run of `Open` in the same mode succeeds exactly
when `Access` says the mode is permitted, or when it creates the file. -/
theorem access_open_agree (filePath : Path) (w : World) (steps : List (Op Tm × List Event))
    (f : File) (w' : World)
    (run : Session localtime Kernel (Relation.ReflTransGen Client) (ofPath filePath) w steps
      f w') (closes : ClosesSucceed (steps.flatMap Prod.snd)) (fileMode : FileMode) :
    ∃ allowed, Returns (f.access fileMode) w' allowed ∧
      ∀ events opened f₁ w'', Exec Step Eq (f.open fileMode) w' events (opened,f₁) w'' →
        opened = (allowed || (decide (fileMode = .ckOpenWrite) && (w'.names f.filePath.name).isNone)) := by
  have valid := Session.valid localtime run closes
  have total : (f.access fileMode).Calls (Total Step) :=
    .bind (.sys (Step.total fun _ _ _ => nofun)) fun _ => .pure _
  have functional : (f.access fileMode).Calls (Functional Step) :=
    .bind (.sys (Step.access_functional _ _)) fun _ => .pure _
  obtain ⟨probe,allowed,w₀,probed⟩ := Exec.exists_run total w'
  refine ⟨allowed,Returns.of_exec functional probed,fun events opened f₁ w'' ran => ?_⟩
  obtain ⟨_,reply₀,_,_,rfl,permitted,last,-⟩ := Exec.sys_bind_iff.mp probed
  obtain ⟨-,rfl,-⟩ := Exec.pure_iff.mp last
  obtain ⟨mid,reply,names,inodes,answer,rfl,-⟩ := open_posix ran valid
  obtain ⟨flags,mode,same⟩ := f.openRequest_open fileMode
  rw [same] at answer
  have opens := Step.open_ret answer
  rw [names,inodes] at opens
  have allows := (Step.access_ret permitted).2
  cases fileMode <;> cases same <;> simp only [opens,allows,AccessMode.amode] <;>
    cases w'.names f.filePath.name <;> simp

theorem access_open_agree_after_open :
    ∃ steps f w', Session some Kernel (Relation.ReflTransGen Client) (ofPath ⟨"f"⟩) removeStart
      steps f w' ∧ ClosesSucceed (steps.flatMap Prod.snd) ∧ f.test = true ∧
      ∃ allowed, Returns (f.access .ckOpenWrite) w' allowed ∧
        ∀ events opened f₁ w'', Exec Step Eq (f.open .ckOpenWrite) w' events (opened,f₁) w'' →
          opened = (allowed || (decide (FileMode.ckOpenWrite = .ckOpenWrite) &&
            (w'.names f.filePath.name).isNone)) :=
  ⟨_,_,_,.step (open_read_interleaved some) (.nil _ _),by simpa using opened_closes,by decide,
    access_open_agree some _ _ _ _ _ (.step (open_read_interleaved some) (.nil _ _))
      (by simpa using opened_closes) .ckOpenWrite⟩

end Ckcore.File
