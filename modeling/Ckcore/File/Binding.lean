import Ckcore.File.Alone

/-! The design a `File` implements, as an abstract machine over a path, whether an open file
is held, and the names of the filesystem. Each member function is a step of `Spec`: `Open`
holds a file, linked at the path or new and linked there by `ckOPEN_WRITE`, or holds none;
`Close` holds none; `Remove` holds none and unlinks the path; `Rename` gives up on a taken
path, and otherwise holds none and moves the file, and the path, to the new one; the others
change nothing. Every run of the member functions under POSIX, with no other process acting,
is a run of `Spec`. When any call may fail, a member function may stop part way, and `Spec.Faulty`
adds those steps: `Open` or `Close` still holding its file, `Remove` unlinking or not, `Rename`
moving or not. Every run under `Kernel` is a run of `Spec.Faulty`, so what holds of that
design holds of the code: a run changes no name but its path and the paths it renames to. -/
namespace Ckcore.File
open Posix

/-- The state of the design: the names of the filesystem, the path of the `File`, and
whether it holds an open file. -/
structure Binding where
  names : String → Option Nat
  path : Path
  holding : Bool

/-- What the design sees of a `File` and the world. -/
def Binding.of (w : World) (f : File) : Binding := ⟨w.names,f.filePath,f.test⟩

variable {Tm : Type}

/-- One member function as the design describes it. -/
inductive Spec : Binding → Op Tm → Binding → Prop
  | openLinked {b : Binding} {fileMode : FileMode} (linked : b.names b.path.name ≠ none) :
      Spec b (.open fileMode) {b with holding := true}
  | openCreated {b : Binding} {ino : Nat} (absent : b.names b.path.name = none)
      (fresh : ∀ name, b.names name ≠ some ino) :
      Spec b (.open .ckOpenWrite)
        {b with names := Function.update b.names b.path.name (some ino), holding := true}
  | openFailed {b : Binding} {fileMode : FileMode} : Spec b (.open fileMode) {b with holding := false}
  | close {b : Binding} : Spec b .close {b with holding := false}
  | remove {b : Binding} :
      Spec b .remove {b with names := Function.update b.names b.path.name none, holding := false}
  | renameTaken {b : Binding} {newFilePath : Path} (taken : b.names newFilePath.name ≠ none) :
      Spec b (.rename newFilePath) b
  | renameMoved {b : Binding} {newFilePath : Path} {ino : Nat}
      (free : b.names newFilePath.name = none) (linked : b.names b.path.name = some ino) :
      Spec b (.rename newFilePath)
        ⟨Function.update (Function.update b.names b.path.name none) newFilePath.name (some ino),
          newFilePath,false⟩
  | renameMissing {b : Binding} {newFilePath : Path} (free : b.names newFilePath.name = none)
      (missing : b.names b.path.name = none) : Spec b (.rename newFilePath) {b with holding := false}
  | keep {b : Binding} {op : Op Tm} (keeps : op.Keeps) : Spec b op b

/-- Runs of the design. -/
inductive Spec.Run : Binding → List (Op Tm) → Binding → Prop
  | nil (b : Binding) : Spec.Run b [] b
  | cons {b b₁ b₂ : Binding} {op : Op Tm} {ops : List (Op Tm)} (step : Spec b op b₁)
      (rest : Spec.Run b₁ ops b₂) : Spec.Run b (op :: ops) b₂

theorem Spec.frame {b b₁ : Binding} {op : Op Tm} (step : Spec b op b₁) :
    (∀ name, name ≠ b.path.name → (∀ p, op.target = some p → name ≠ p.name) →
      b₁.names name = b.names name) ∧ (b₁.path = b.path ∨ op.target = some b₁.path) := by
  cases step with
  | renameMoved =>
    refine ⟨fun name other moved => ?_,.inr rfl⟩
    dsimp only
    rw [Function.update_noteq (moved _ rfl),Function.update_noteq other]
  | openCreated | remove => exact ⟨fun name other _ => Function.update_noteq other _ _,.inl rfl⟩
  | _ => exact ⟨fun _ _ _ => rfl,.inl rfl⟩

/-- One member function as the design allows it when a system call may fail: a step of `Spec`,
or one that stopped part way. -/
inductive Spec.Faulty : Binding → Op Tm → Binding → Prop
  | spec {b b₁ : Binding} {op : Op Tm} (step : Spec b op b₁) : Spec.Faulty b op b₁
  /-- `Open` or `Close` whose `close(2)` failed, still holding its file. -/
  | kept {b : Binding} {op : Op Tm} (closing : op = .close ∨ ∃ fileMode, op = .open fileMode) :
      Spec.Faulty b op b
  /-- `Remove`, the path unlinked or not, the file given up or not. -/
  | remove {b : Binding} {names : String → Option Nat} {holding : Bool}
      (unlinked : names = Function.update b.names b.path.name none ∨ names = b.names)
      (released : holding = false ∨ holding = b.holding) :
      Spec.Faulty b .remove ⟨names,b.path,holding⟩
  /-- `Rename`, nothing moved, or the path moved to a second name of its file, or the file
  moved there, whatever was at the new path; the file given up or not. -/
  | rename {b : Binding} {newFilePath : Path} {names : String → Option Nat} {path : Path}
      {holding : Bool}
      (moved : names = b.names ∧ path = b.path ∨ path = newFilePath ∧ ∃ ino,
        b.names b.path.name = some ino ∧ (names = b.names ∧ b.names newFilePath.name = some ino ∨
          names = Function.update (Function.update b.names b.path.name none) newFilePath.name
            (some ino)))
      (released : holding = false ∨ holding = b.holding) :
      Spec.Faulty b (.rename newFilePath) ⟨names,path,holding⟩

/-- Runs of the design under failing calls. -/
inductive Spec.Faulty.Run : Binding → List (Op Tm) → Binding → Prop
  | nil (b : Binding) : Spec.Faulty.Run b [] b
  | cons {b b₁ b₂ : Binding} {op : Op Tm} {ops : List (Op Tm)} (step : Spec.Faulty b op b₁)
      (rest : Spec.Faulty.Run b₁ ops b₂) : Spec.Faulty.Run b (op :: ops) b₂

theorem Spec.Faulty.frame {b b₁ : Binding} {op : Op Tm} (step : Spec.Faulty b op b₁) :
    (∀ name, name ≠ b.path.name → (∀ p, op.target = some p → name ≠ p.name) →
      b₁.names name = b.names name) ∧ (b₁.path = b.path ∨ op.target = some b₁.path) := by
  cases step with
  | spec step => exact step.frame
  | kept => exact ⟨fun _ _ _ => rfl,.inl rfl⟩
  | remove unlinked =>
    rcases unlinked with rfl | rfl
    exacts [⟨fun name other _ => Function.update_noteq other _ _,.inl rfl⟩,⟨fun _ _ _ => rfl,.inl rfl⟩]
  | rename moved =>
    rcases moved with ⟨rfl,rfl⟩ | ⟨rfl,ino,-,⟨rfl,-⟩ | rfl⟩
    · exact ⟨fun _ _ _ => rfl,.inl rfl⟩
    · exact ⟨fun _ _ _ => rfl,.inr rfl⟩
    · refine ⟨fun name other moved => ?_,.inr rfl⟩
      dsimp only
      rw [Function.update_noteq (moved _ rfl),Function.update_noteq other]

theorem Spec.Faulty.Run.untouched {b b' : Binding} {ops : List (Op Tm)}
    (run : Spec.Faulty.Run b ops b') (name : String) (other : name ≠ b.path.name)
    (unrenamed : ∀ op ∈ ops, ∀ p, Op.target op = some p → name ≠ p.name) :
    b'.names name = b.names name := by
  induction run with
  | nil => rfl
  | cons step _ ih =>
    obtain ⟨kept,moved⟩ := step.frame
    have here := unrenamed _ (List.mem_cons_self _ _)
    rw [ih ?_ fun op mem => unrenamed op (List.mem_cons_of_mem _ mem),kept name other here]
    rcases moved with same | target
    · rwa [same]
    · exact here _ target

section Refinement

variable (localtime : Int → Option Tm) {f f₁ : File} {w w' : World} {events : List Event}

theorem test_cleared (f : File) : ({f with fileHandle := -1} : File).test = false := by
  simp [test]

theorem open_call_refines {fileMode : FileMode} {mid : World} {reply : Reply}
    (answer : Kernel mid (f.openRequest fileMode) reply w') (names : mid.names = w.names) :
    Spec (Binding.of w f) (.open fileMode : Op Tm) (Binding.of w' {f with fileHandle := reply.ret}) := by
  obtain ⟨flags,mode,same⟩ := f.openRequest_open fileMode
  rw [same] at answer
  rcases answer.open_cases with ⟨failed,rfl⟩ |
    ⟨fd,ino,returned,lowest,⟨linked,rfl⟩ | ⟨creat,absent,fresh,rfl⟩⟩
  · have cleared : Binding.of w' {f with fileHandle := reply.ret} =
        {Binding.of w f with holding := false} := by
      simp [Binding.of,test,failed,names]
    exact cleared ▸ .openFailed
  · have opened : Binding.of (mid.setFd fd (some ⟨ino,0,flags.accessMode⟩))
        {f with fileHandle := reply.ret} = {Binding.of w f with holding := true} := by
      have := lowest.1
      simp [Binding.of,test,returned,names]
      omega
    rw [names] at linked
    exact opened ▸ .openLinked (by simp [Binding.of,linked])
  · cases fileMode <;> cases same
    · cases creat
    have created : Binding.of (((mid.setInode ino ⟨[],sIrusr ||| sIwusr,mid.clock,mid.clock,
        mid.clock⟩).link f.filePath.name (some ino)).setFd fd (some ⟨ino,0,.oWronly⟩))
        {f with fileHandle := reply.ret} = {Binding.of w f with
          names := Function.update w.names f.filePath.name (some ino), holding := true} := by
      have := lowest.1
      simp [Binding.of,test,returned,names]
      omega
    rw [names] at absent
    exact created ▸ .openCreated absent fun name => by simpa [Binding.of,names] using fresh.1 name

theorem open_refines {fileMode : FileMode} {opened : Bool}
    (ran : Exec Step Eq (f.open fileMode) w events (opened,f₁) w') (valid : Valid w f) :
    Spec (Binding.of w f) (.open fileMode : Op Tm) (Binding.of w' f₁) := by
  obtain ⟨mid,reply,names,-,answer,-,rfl⟩ := open_posix ran valid
  exact open_call_refines (Kernel.of_step answer) names

theorem close_refines {closed : Bool} (ran : Exec Step Eq f.close w events (closed,f₁) w')
    (valid : Valid w f) : Spec (Binding.of w f) (.close : Op Tm) (Binding.of w' f₁) := by
  obtain ⟨rfl,-⟩ := close_posix ran valid
  have cleared : Binding.of w' {f with fileHandle := -1} = {Binding.of w f with holding := false} := by
    simp [Binding.of,test_cleared,(close_posix_names ran valid).1]
  exact cleared ▸ .close

theorem remove_refines {removed : Bool} (ran : Exec Step Eq f.remove w events (removed,f₁) w')
    (valid : Valid w f) : Spec (Binding.of w f) (.remove : Op Tm) (Binding.of w' f₁) := by
  obtain ⟨-,rfl,names,-⟩ := remove_posix ran valid
  have removed : Binding.of w' {f with fileHandle := -1} = {Binding.of w f with
      names := Function.update w.names f.filePath.name none, holding := false} := by
    simp [Binding.of,test_cleared,names]
  exact removed ▸ .remove

theorem rename_refines {newFilePath : Path} {renamed : Bool}
    (ran : Exec Step Eq (f.rename newFilePath) w events (renamed,f₁) w') (valid : Valid w f) :
    Spec (Binding.of w f) (.rename newFilePath : Op Tm) (Binding.of w' f₁) := by
  obtain ⟨taken,free⟩ := rename_posix ran valid
  by_cases absent : w.names newFilePath.name = none
  · obtain ⟨renamed_iff,cleared,moved,kept⟩ := free absent
    have unheld : f₁.test = false := by simp [test,cleared]
    cases renamed
    · obtain ⟨path,names⟩ := kept rfl
      have missing : w.names f.filePath.name = none := by simpa using renamed_iff
      have same : Binding.of w' f₁ = {Binding.of w f with holding := false} := by
        simp [Binding.of,unheld,path,names]
      exact same ▸ .renameMissing absent missing
    · obtain ⟨path,names⟩ := moved rfl
      obtain ⟨ino,linked⟩ := Option.isSome_iff_exists.mp renamed_iff.symm
      have same : Binding.of w' f₁ = ⟨Function.update (Function.update w.names
          f.filePath.name none) newFilePath.name (some ino),newFilePath,false⟩ := by
        simp [Binding.of,unheld,path,names,linked]
      exact same ▸ .renameMoved absent linked
  · obtain ⟨-,rfl,rfl⟩ := taken absent
    exact .renameTaken absent

theorem run_refines {op : Op Tm} {outcome : Outcome Tm}
    (ran : Exec Step Eq (op.run localtime f) w events (outcome,f₁) w') (valid : Valid w f) :
    Spec (Binding.of w f) op (Binding.of w' f₁) := by
  by_cases keeps : op.Keeps
  · have kept : w'.names = w.names := Exec.invariant (fun w₁ => w₁.names = w.names)
      (fun _ request _ _ (query : request.Query) answer same =>
        ((Kernel.of_step answer).query_frame query).1.trans same)
      ran (run_calls localtime keeps) rfl
    rw [run_keeps localtime keeps ran]
    simp only [Binding.of,kept]
    exact .keep keeps
  rcases run_changes localtime keeps ran with
    ⟨_,_,rfl,rfl,called⟩ | ⟨_,rfl,rfl,called⟩ | ⟨_,rfl,rfl,called⟩ | ⟨_,_,rfl,rfl,called⟩
  exacts [open_refines called valid,close_refines called valid,remove_refines called valid,
    rename_refines called valid]

theorem Spec.Run.of_session {steps : List (Op Tm × List Event)} {f' : File}
    (run : Session localtime Step Eq f w steps f' w') (valid : Valid w f) :
    Spec.Run (Binding.of w f) (steps.map Prod.fst) (Binding.of w' f') := by
  induction run with
  | nil => exact .nil _
  | step ran _ ih =>
    obtain ⟨live,kept⟩ := (run_usesHeld localtime (ran.mono (fun _ _ _ _ => Kernel.of_step)
      fun _ _ same => by subst same; exact .refl)).2 valid
    exact .cons (run_refines localtime ran valid) (ih (kept (Live.closes ran live)))

@[simp] theorem Binding.of_setFd (w : World) (fd : Int) (description : Option Description) (f : File) :
    Binding.of (w.setFd fd description) f = Binding.of w f := rfl

theorem close_kernel_binding {closed : Bool} (ran : Exec Kernel Eq f.close w events (closed,f₁) w') :
    w'.names = w.names ∧ f₁.filePath = f.filePath ∧ (f₁.test = false ∨ f₁.test = f.test) := by
  rcases close_kernel ran with ⟨-,rfl,rfl⟩ | ⟨-,rfl,rfl | ⟨-,rfl⟩⟩
  exacts [⟨rfl,rfl,.inl (test_cleared f)⟩,⟨rfl,rfl,.inr rfl⟩,⟨rfl,rfl,.inr rfl⟩]

theorem close_faulty {closed : Bool} (ran : Exec Kernel Eq f.close w events (closed,f₁) w') :
    Spec.Faulty (Binding.of w f) (.close : Op Tm) (Binding.of w' f₁) := by
  rcases close_kernel ran with ⟨-,rfl,rfl⟩ | ⟨-,rfl,rfl | ⟨-,rfl⟩⟩
  · have cleared : Binding.of w {f with fileHandle := -1} = {Binding.of w f with holding := false} := by
      simp [Binding.of,test_cleared]
    exact .spec (by rw [Binding.of_setFd,cleared]; exact .close)
  · exact .kept (.inl rfl)
  · rw [Binding.of_setFd]
    exact .kept (.inl rfl)

theorem open_faulty {fileMode : FileMode} {opened : Bool}
    (ran : Exec Kernel Eq (f.open fileMode) w events (opened,f₁) w') :
    Spec.Faulty (Binding.of w f) (.open fileMode : Op Tm) (Binding.of w' f₁) := by
  rcases open_kernel ran with ⟨-,rfl,rfl | ⟨-,rfl⟩⟩ | ⟨mid,reply,closing,answer,-,rfl⟩
  · exact .kept (.inr ⟨_,rfl⟩)
  · rw [Binding.of_setFd]
    exact .kept (.inr ⟨_,rfl⟩)
  · exact .spec (open_call_refines answer (by rcases closing with ⟨-,rfl⟩ | ⟨-,rfl⟩ <;> rfl))

theorem remove_faulty {removed : Bool} (ran : Exec Kernel Eq f.remove w events (removed,f₁) w') :
    Spec.Faulty (Binding.of w f) (.remove : Op Tm) (Binding.of w' f₁) := by
  obtain ⟨first,closed,f₂,mid,second,reply,closing,called,-,equal⟩ := remove_exec ran
  cases equal
  obtain ⟨names,path,released⟩ := close_kernel_binding closing
  obtain ⟨_,rfl,answer,rfl⟩ := Exec.sys_iff.mp called
  have unlinked : w'.names = Function.update w.names f.filePath.name none ∨ w'.names = w.names := by
    rw [← names,← path]
    rcases answer.unclosed fun _ => nofun with answer | ⟨-,rfl⟩
    · cases answer
      exacts [.inl rfl,.inr rfl]
    · exact .inr rfl
  have same : Binding.of w' f₁ = ⟨w'.names,f.filePath,f₁.test⟩ := by rw [Binding.of,path]
  exact same ▸ .remove unlinked released

theorem rename_faulty {newFilePath : Path} {renamed : Bool}
    (ran : Exec Kernel Eq (f.rename newFilePath) w events (renamed,f₁) w') :
    Spec.Faulty (Binding.of w f) (.rename newFilePath : Op Tm) (Binding.of w' f₁) := by
  obtain ⟨first,taken,mid,probing,rest⟩ := rename_exec ran
  obtain ⟨reply,called,-⟩ := existAt_exec probing
  obtain ⟨_,rfl,answer,rfl⟩ := Exec.sys_iff.mp called
  cases answer.stat_world
  rcases rest with ⟨-,equal,-,rfl⟩ | ⟨-,second,closed,f₂,mid₁,third,reply,closing,called,-,equal⟩
  · cases equal
    exact .rename (.inl ⟨rfl,rfl⟩) (.inr rfl)
  obtain ⟨names,path,released⟩ := close_kernel_binding closing
  obtain ⟨_,rfl,answer,rfl⟩ := Exec.sys_iff.mp called
  rw [path] at answer
  by_cases succeeded : reply.ret = 0
  · rw [if_pos succeeded] at equal
    cases equal
    rcases answer.unclosed fun _ => nofun with answer | ⟨rfl,-⟩
    · cases answer with
      | renameSame linked same =>
        exact .rename (.inr ⟨rfl,_,(congrFun names _).symm.trans linked,
          .inl ⟨names,(congrFun names _).symm.trans same⟩⟩) released
      | rename linked =>
        exact .rename (.inr ⟨rfl,_,(congrFun names _).symm.trans linked,
          .inr (by simp [Binding.of,names])⟩) released
      | renameNoent => cases succeeded
    · cases succeeded
  · rw [if_neg succeeded] at equal
    cases equal
    cases answer.failed trivial (fun _ => nofun) succeeded
    exact .rename (.inl ⟨names,path⟩) released

theorem run_faulty {op : Op Tm} {outcome : Outcome Tm}
    (ran : Exec Kernel Eq (op.run localtime f) w events (outcome,f₁) w') :
    Spec.Faulty (Binding.of w f) op (Binding.of w' f₁) := by
  by_cases keeps : op.Keeps
  · have kept : w'.names = w.names := Exec.invariant (fun w₁ => w₁.names = w.names)
      (fun _ request _ _ (query : request.Query) answer same => (answer.query_frame query).1.trans same)
      ran (run_calls localtime keeps) rfl
    rw [run_keeps localtime keeps ran]
    simp only [Binding.of,kept]
    exact .spec (.keep keeps)
  rcases run_changes localtime keeps ran with
    ⟨_,_,rfl,rfl,called⟩ | ⟨_,rfl,rfl,called⟩ | ⟨_,rfl,rfl,called⟩ | ⟨_,_,rfl,rfl,called⟩
  exacts [open_faulty called,close_faulty called,remove_faulty called,rename_faulty called]

theorem Spec.Faulty.Run.of_session {steps : List (Op Tm × List Event)} {f' : File}
    (run : Session localtime Kernel Eq f w steps f' w') :
    Spec.Faulty.Run (Binding.of w f) (steps.map Prod.fst) (Binding.of w' f') := by
  induction run with
  | nil => exact .nil _
  | step ran _ ih => exact .cons (run_faulty localtime ran) ih

end Refinement

/-- Refinement: every run of the member functions of a new `File`, the kernel answering as
POSIX specifies and no other process acting, is a run of the design. -/
theorem session_refines (filePath : Path) (w : World) (steps : List (Op Tm × List Event))
    (f : File) (w' : World) (localtime : Int → Option Tm)
    (run : Session localtime Step Eq (ofPath filePath) w steps f w') :
    Spec.Run (Binding.of w (ofPath filePath)) (steps.map Prod.fst) (Binding.of w' f) :=
  Spec.Run.of_session localtime run (.inl rfl)

theorem open_remove_posix :
    Session some Step Eq (ofPath ⟨"f"⟩) removeStart
      [(.open .ckOpenRead,[⟨removeStart,.open "f" ⟨.oRdonly,false⟩ 0,⟨0,[],{}⟩⟩]),
        (.remove,[⟨removeStart.setFd 0 (some ⟨0,0,.oRdonly⟩),.close 0,⟨0,[],{}⟩⟩,
          ⟨(removeStart.setFd 0 (some ⟨0,0,.oRdonly⟩)).setFd 0 none,.unlink "f",⟨0,[],{}⟩⟩])]
      ⟨-1,⟨"f"⟩⟩ ((((removeStart.setFd 0 (some ⟨0,0,.oRdonly⟩)).setFd 0 none).link "f" none).touch 0) :=
  .step (.call rfl (.openLinked rfl (by decide) (.zero rfl)) (.pure _ _))
    (.step (.call rfl (.closeOpen rfl) (.call rfl (.unlink rfl) (.pure _ _))) (.nil _ _))

theorem session_refines_open_remove :
    Spec.Run (Binding.of removeStart (ofPath ⟨"f"⟩)) [(.open .ckOpenRead : Op Int),.remove]
      (Binding.of ((((removeStart.setFd 0 (some ⟨0,0,.oRdonly⟩)).setFd 0 none).link "f" none).touch 0)
        ⟨-1,⟨"f"⟩⟩) :=
  session_refines _ _ _ _ _ some open_remove_posix

/-- Refinement when calls fail: every run of the member functions of a new `File`, whatever
the kernel answers and with no other process acting, is a run of the design whose member
functions may stop part way. -/
theorem session_refines_faulty (filePath : Path) (w : World) (steps : List (Op Tm × List Event))
    (f : File) (w' : World) (localtime : Int → Option Tm)
    (run : Session localtime Kernel Eq (ofPath filePath) w steps f w') :
    Spec.Faulty.Run (Binding.of w (ofPath filePath)) (steps.map Prod.fst) (Binding.of w' f) :=
  Spec.Faulty.Run.of_session localtime run

theorem open_close_released :
    Session some Kernel Eq (ofPath ⟨"f"⟩) removeStart
      [(.open .ckOpenRead,[⟨removeStart,.open "f" ⟨.oRdonly,false⟩ 0,⟨0,[],{}⟩⟩]),
        (.close,[⟨removeStart.setFd 0 (some ⟨0,0,.oRdonly⟩),.close 0,.failure⟩])]
      ⟨0,⟨"f"⟩⟩ ((removeStart.setFd 0 (some ⟨0,0,.oRdonly⟩)).setFd 0 none) :=
  .step (.call rfl (.inl (.openLinked rfl (by decide) (.zero rfl))) (.pure _ _))
    (.step (.call rfl (.released _ _) (.pure _ _)) (.nil _ _))

theorem session_refines_faulty_failed_close :
    Spec.Faulty.Run (Binding.of removeStart (ofPath ⟨"f"⟩)) [(.open .ckOpenRead : Op Int),.close]
      (Binding.of ((removeStart.setFd 0 (some ⟨0,0,.oRdonly⟩)).setFd 0 none) ⟨0,⟨"f"⟩⟩) :=
  session_refines_faulty _ _ _ _ _ some open_close_released

/-- What the code never does: a run of the member functions of a new `File`, whatever the
kernel answers and with no other process acting, links or unlinks no name but its path and the
paths it renames to. -/
theorem names_framed (filePath : Path) (w : World) (steps : List (Op Tm × List Event))
    (f : File) (w' : World) (localtime : Int → Option Tm)
    (run : Session localtime Kernel Eq (ofPath filePath) w steps f w') (name : String)
    (other : name ≠ filePath.name)
    (unrenamed : ∀ step ∈ steps, ∀ p, step.1.target = some p → name ≠ p.name) :
    w'.names name = w.names name :=
  (Spec.Faulty.Run.of_session localtime run).untouched name other fun op mem p target => by
    obtain ⟨step,member,rfl⟩ := List.mem_map.mp mem
    exact unrenamed step member p target

theorem names_framed_open_remove :
    ((((removeStart.setFd 0 (some ⟨0,0,.oRdonly⟩)).setFd 0 none).link "f" none).touch 0).names "g" =
      removeStart.names "g" :=
  names_framed _ _ _ _ _ some (open_remove_posix.mono (fun _ _ _ _ => Kernel.of_step) fun _ _ => id)
    "g" (by decide) (by simp [Op.target])

end Ckcore.File
