import Ckcore.File.Basic

/-! What a run of each member function can be, against any kernel and any environment:
which calls it makes, in which order, and what it returns from their replies. The proofs
about `File` use these and never unfold a member function again. -/
namespace Ckcore.File
open Posix

variable {Tm : Type} (localtime : Int → Option Tm)
  {kernel : World → Syscall → Reply → World → Prop} {env : World → World → Prop}
  {f : File} {w w' : World} {events : List Event}

theorem guarded_exec {α : Type} {value result : α} {request : Syscall} {g : Reply → α}
    (ran : Exec kernel env (if f.fileHandle = -1 then pure value else do
      let reply ← sys request
      pure (g reply)) w events result w') :
    f.fileHandle = -1 ∧ result = value ∧ events = [] ∧ w' = w ∨
      f.fileHandle ≠ -1 ∧ ∃ reply, Exec kernel env (sys request) w events reply w' ∧
        result = g reply := by
  split_ifs at ran with unheld
  · obtain ⟨rfl,rfl,rfl⟩ := Exec.pure_iff.mp ran
    exact .inl ⟨unheld,rfl,rfl,rfl⟩
  · obtain ⟨first,reply,mid,second,called,last,rfl⟩ := Exec.of_bind ran
    obtain ⟨rfl,rfl,rfl⟩ := Exec.pure_iff.mp last
    exact .inr ⟨unheld,reply,by simpa using called,rfl⟩

theorem close_exec {result : Bool × File} (ran : Exec kernel env f.close w events result w') :
    f.fileHandle = -1 ∧ result = (false,f) ∧ events = [] ∧ w' = w ∨
      f.fileHandle ≠ -1 ∧ ∃ reply, Exec kernel env (sys (.close f.fileHandle)) w events reply w' ∧
        result = if reply.ret = 0 then (true,{f with fileHandle := -1}) else (false,f) :=
  guarded_exec ran

theorem read_exec {count : Nat} {result : Int × List UInt8}
    (ran : Exec kernel env (f.read count) w events result w') :
    f.fileHandle = -1 ∧ result = (-1,[]) ∧ events = [] ∧ w' = w ∨
      f.fileHandle ≠ -1 ∧ ∃ reply, Exec kernel env (sys (.read f.fileHandle count)) w events reply w' ∧
        result = (reply.ret,reply.buf) :=
  guarded_exec ran

theorem write_exec {buffer : List UInt8} {count : Nat} {result : Int}
    (ran : Exec kernel env (f.write buffer count) w events result w') :
    f.fileHandle = -1 ∧ result = -1 ∧ events = [] ∧ w' = w ∨
      f.fileHandle ≠ -1 ∧ ∃ reply, Exec kernel env (sys (.write f.fileHandle buffer count)) w events
        reply w' ∧ result = reply.ret :=
  guarded_exec ran

theorem close_result {closed : Bool} {f₁ : File}
    (ran : Exec kernel env f.close w events (closed,f₁) w') :
    (closed = true → f₁ = {f with fileHandle := -1}) ∧ (closed = false → f₁ = f) := by
  rcases close_exec ran with ⟨-,equal,-⟩ | ⟨-,reply,-,equal⟩
  · cases equal
    simp
  · split_ifs at equal <;> cases equal <;> simp

theorem close_kernel {closed : Bool} {f₁ : File}
    (ran : Exec Kernel Eq f.close w events (closed,f₁) w') :
    closed = true ∧ f₁ = {f with fileHandle := -1} ∧ w' = w.setFd f.fileHandle none ∨
      closed = false ∧ f₁ = f ∧
        (w' = w ∨ ¬ ClosesSucceed events ∧ w' = w.setFd f.fileHandle none) := by
  rcases close_exec ran with ⟨-,equal,rfl,rfl⟩ | ⟨-,reply,called,equal⟩
  · cases equal
    exact .inr ⟨rfl,rfl,.inl rfl⟩
  obtain ⟨_,rfl,answer,rfl⟩ := Exec.sys_iff.mp called
  rcases answer.close_cases with ⟨released,rfl⟩ | ⟨failed,kept⟩
  · rw [if_pos released] at equal
    cases equal
    exact .inl ⟨rfl,rfl,rfl⟩
  · rw [if_neg failed] at equal
    cases equal
    exact .inr ⟨rfl,rfl,kept.imp_right fun released =>
      ⟨fun closes => failed (closes _ (List.mem_singleton_self _) _ rfl),released⟩⟩

theorem open_exec {fileMode : FileMode} {result : Bool × File}
    (ran : Exec kernel env (f.open fileMode) w events result w') :
    ∃ first closed f₁ mid, Exec kernel env (if f.fileHandle ≠ -1 then f.close else pure (true,f))
      w first (closed,f₁) mid ∧
      (closed = false ∧ result = (false,f₁) ∧ events = first ∧ w' = mid ∨
        closed = true ∧ ∃ second reply, Exec kernel env (sys (f₁.openRequest fileMode)) mid second
          reply w' ∧ events = first ++ second ∧
          result = (decide (reply.ret ≠ -1),{f₁ with fileHandle := reply.ret})) := by
  obtain ⟨first,⟨closed,f₁⟩,mid,rest,closing,opening,rfl⟩ := Exec.of_bind ran
  refine ⟨first,closed,f₁,mid,closing,?_⟩
  cases closed
  · obtain ⟨rfl,rfl,rfl⟩ := Exec.pure_iff.mp opening
    exact .inl ⟨rfl,rfl,by simp,rfl⟩
  · obtain ⟨second,reply,after,third,called,last,rfl⟩ := Exec.of_bind opening
    obtain ⟨rfl,rfl,rfl⟩ := Exec.pure_iff.mp last
    exact .inr ⟨rfl,second,reply,called,by simp,rfl⟩

theorem open_kernel {fileMode : FileMode} {opened : Bool} {f₁ : File}
    (ran : Exec Kernel Eq (f.open fileMode) w events (opened,f₁) w') :
    opened = false ∧ f₁ = f ∧ (w' = w ∨ ¬ ClosesSucceed events ∧ w' = w.setFd f.fileHandle none) ∨
      ∃ mid reply, (f.fileHandle = -1 ∧ mid = w ∨ f.fileHandle ≠ -1 ∧ mid = w.setFd f.fileHandle none) ∧
        Kernel mid (f.openRequest fileMode) reply w' ∧
        opened = decide (reply.ret ≠ -1) ∧ f₁ = {f with fileHandle := reply.ret} := by
  obtain ⟨first,closed,f₂,mid,closing,rest⟩ := open_exec ran
  have closed_kernel : closed = false ∧ f₂ = f ∧
      (mid = w ∨ ¬ ClosesSucceed first ∧ mid = w.setFd f.fileHandle none) ∨ closed = true ∧
      f₂ = {f with fileHandle := -1} ∧
        (f.fileHandle = -1 ∧ mid = w ∨ f.fileHandle ≠ -1 ∧ mid = w.setFd f.fileHandle none) := by
    split_ifs at closing with holding
    · rcases close_kernel closing with ⟨rfl,rfl,rfl⟩ | ⟨rfl,rfl,kept⟩
      exacts [.inr ⟨rfl,rfl,.inr ⟨holding,rfl⟩⟩,.inl ⟨rfl,rfl,kept⟩]
    · obtain ⟨-,equal,rfl⟩ := Exec.pure_iff.mp closing
      cases equal
      exact .inr ⟨rfl,by rw [← not_not.mp holding],.inl ⟨not_not.mp holding,rfl⟩⟩
  rcases closed_kernel with ⟨rfl,rfl,kept⟩ | ⟨rfl,rfl,closed⟩ <;>
    rcases rest with ⟨never,equal,rfl,rfl⟩ | ⟨never,second,reply,called,-,equal⟩ <;> cases never <;>
    cases equal
  · exact .inl ⟨rfl,rfl,kept⟩
  · obtain ⟨_,rfl,answer,rfl⟩ := Exec.sys_iff.mp called
    exact .inr ⟨_,reply,closed,answer,rfl,rfl⟩

theorem openRequest_open (f : File) (fileMode : FileMode) :
    ∃ flags mode, f.openRequest fileMode = .open f.filePath.name flags mode := by
  cases fileMode <;> exact ⟨_,_,rfl⟩

theorem existAt_exec {filePath : Path} {taken : Bool}
    (ran : Exec kernel env (existAt filePath) w events taken w') :
    ∃ reply, Exec kernel env (sys (.stat filePath.name)) w events reply w' ∧
      taken = decide (reply.ret = 0) := by
  obtain ⟨first,reply,mid,second,called,last,rfl⟩ := Exec.of_bind ran
  obtain ⟨rfl,rfl,rfl⟩ := Exec.pure_iff.mp last
  exact ⟨reply,by simpa using called,rfl⟩

theorem remove_exec {result : Bool × File} (ran : Exec kernel env f.remove w events result w') :
    ∃ first closed f₁ mid second reply, Exec kernel env f.close w first (closed,f₁) mid ∧
      Exec kernel env (sys (.unlink f₁.filePath.name)) mid second reply w' ∧
      events = first ++ second ∧ result = (decide (reply.ret = 0),f₁) := by
  obtain ⟨first,⟨closed,f₁⟩,mid,rest,closing,unlinking,rfl⟩ := Exec.of_bind ran
  obtain ⟨second,reply,after,third,called,last,rfl⟩ := Exec.of_bind unlinking
  obtain ⟨rfl,rfl,rfl⟩ := Exec.pure_iff.mp last
  exact ⟨first,closed,f₁,mid,second,reply,closing,called,by simp,rfl⟩

theorem rename_exec {newFilePath : Path} {result : Bool × File}
    (ran : Exec kernel env (f.rename newFilePath) w events result w') :
    ∃ first taken mid, Exec kernel env (existAt newFilePath) w first taken mid ∧
      (taken = true ∧ result = (false,f) ∧ events = first ∧ w' = mid ∨
        taken = false ∧ ∃ second closed f₁ mid₁ third reply,
          Exec kernel env f.close mid second (closed,f₁) mid₁ ∧
          Exec kernel env (sys (.rename f₁.filePath.name newFilePath.name)) mid₁ third reply w' ∧
          events = first ++ second ++ third ∧
          result = if reply.ret = 0 then (true,{f₁ with filePath := newFilePath}) else (false,f₁)) := by
  obtain ⟨first,taken,mid,rest,probing,moving,rfl⟩ := Exec.of_bind ran
  refine ⟨first,taken,mid,probing,?_⟩
  cases taken
  · obtain ⟨second,⟨closed,f₁⟩,mid₁,rest,closing,moved,rfl⟩ := Exec.of_bind moving
    obtain ⟨third,reply,after,fourth,called,last,rfl⟩ := Exec.of_bind moved
    obtain ⟨rfl,rfl,rfl⟩ := Exec.pure_iff.mp last
    exact .inr ⟨rfl,second,closed,f₁,mid₁,third,reply,closing,called,by simp,rfl⟩
  · obtain ⟨rfl,rfl,rfl⟩ := Exec.pure_iff.mp moving
    exact .inl ⟨rfl,rfl,by simp,rfl⟩

theorem guarded_calls {α : Type} {allowed : Syscall → Prop} {value : α} {request : Syscall}
    {g : Reply → α} (permitted : allowed request) :
    (if f.fileHandle = -1 then pure value else do
      let reply ← sys request
      pure (g reply)).Calls allowed := by
  split_ifs
  exacts [.pure _,.bind (.sys permitted) fun _ => .pure _]

theorem seek_calls (distance : Int) (whence : FileWhence) :
    (f.seek distance whence).Calls Syscall.Query :=
  guarded_calls trivial

theorem tell_calls : f.tell.Calls Syscall.Query := guarded_calls trivial

theorem existAt_calls (filePath : Path) : (existAt filePath).Calls Syscall.Query :=
  .bind (.sys trivial) fun _ => .pure _

theorem timeAt_calls (filePath : Path) (accessTime modifyTime createTime : Tm) :
    (timeAt localtime filePath accessTime modifyTime createTime).Calls Syscall.Query :=
  .bind (.sys trivial) fun _ => .pure _

theorem sizeAt_calls (filePath : Path) : (sizeAt filePath).Calls Syscall.Query :=
  .bind (.sys trivial) fun _ => .pure _

theorem run_calls {op : Op Tm} (keeps : op.Keeps) : (op.run localtime f).Calls Syscall.Query := by
  cases op <;> simp only [Op.Keeps] at keeps <;> simp only [Op.run]
  case test => exact .pure _
  case seek => exact .bind (seek_calls _ _) fun _ => .pure _
  case tell => exact .bind tell_calls fun _ => .pure _
  case read => exact .bind (guarded_calls trivial) fun _ => .pure _
  case write => exact .bind (guarded_calls trivial) fun _ => .pure _
  case exist =>
    refine .bind ?_ fun _ => .pure _
    unfold exist; split_ifs
    exacts [.bind (.sys trivial) fun _ => .pure _,existAt_calls _]
  case time =>
    refine .bind ?_ fun _ => .pure _
    unfold time; split_ifs
    exacts [.bind (.sys trivial) fun _ => .pure _,timeAt_calls localtime _ _ _ _]
  case access => exact .bind (.bind (.sys trivial) fun _ => .pure _) fun _ => .pure _
  case size =>
    refine .bind ?_ fun _ => .pure _
    unfold size; split_ifs
    exacts [sizeAt_calls _,.bind tell_calls fun _ => .bind (seek_calls _ _) fun _ =>
      .bind (seek_calls _ _) fun _ => .pure _]

theorem run_keeps {op : Op Tm} (keeps : op.Keeps) {outcome : Outcome Tm} {f' : File}
    (ran : Exec kernel env (op.run localtime f) w events (outcome,f') w') : f' = f := by
  cases op <;> simp only [Op.Keeps] at keeps <;> simp only [Op.run] at ran
  case test => exact (Prod.mk.inj (Exec.pure_iff.mp ran).2.1).2
  all_goals
    obtain ⟨first,a,mid,second,called,last,joined⟩ := Exec.of_bind ran
    exact (Prod.mk.inj (Exec.pure_iff.mp last).2.1).2

theorem run_changes {op : Op Tm} (changes : ¬ op.Keeps) {outcome : Outcome Tm} {f' : File}
    (ran : Exec kernel env (op.run localtime f) w events (outcome,f') w') :
    (∃ fileMode opened, op = .open fileMode ∧ outcome = .bool opened ∧
      Exec kernel env (f.open fileMode) w events (opened,f') w') ∨
    (∃ closed, op = .close ∧ outcome = .bool closed ∧ Exec kernel env f.close w events (closed,f') w') ∨
    (∃ removed, op = .remove ∧ outcome = .bool removed ∧
      Exec kernel env f.remove w events (removed,f') w') ∨
    ∃ newFilePath renamed, op = .rename newFilePath ∧ outcome = .bool renamed ∧
      Exec kernel env (f.rename newFilePath) w events (renamed,f') w' := by
  cases op <;> simp only [Op.Keeps,not_true_eq_false,not_false_eq_true] at changes <;>
    simp only [Op.run] at ran <;>
    obtain ⟨first,⟨b,f₂⟩,mid,second,called,last,rfl⟩ := Exec.of_bind ran <;>
    obtain ⟨rfl,equal,rfl⟩ := Exec.pure_iff.mp last <;>
    cases equal <;>
    rw [List.append_nil]
  exacts [.inl ⟨_,_,rfl,rfl,called⟩,.inr (.inl ⟨_,rfl,rfl,called⟩),.inr (.inr (.inl ⟨_,rfl,rfl,called⟩)),
    .inr (.inr (.inr ⟨_,_,rfl,rfl,called⟩))]

end Ckcore.File
