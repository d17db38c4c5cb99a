import Ckcore.File.Ownership
import Ckcore.File.Agreement

/-! Descriptor safety of `File` across interleavings. Whatever the kernel answers to each
call, and whatever other processes create or unlink in between, every call a run of member
functions makes on a descriptor is on one its own `open(2)` returned and no successful
`close(2)` has released, and the only entries of the descriptor table the run changes are
those its `open(2)` calls returned. While every `close(2)` succeeds, that descriptor is open
when the call is made, and `Close` (the destructor's too), answered as POSIX specifies,
returns what `Test` says and leaves nothing held. -/
namespace Ckcore.File
open Posix

/-- The descriptor `f` holds, if any, is open. -/
def Valid (w : World) (f : File) : Prop := f.fileHandle = -1 ∨ w.fds f.fileHandle ≠ none

theorem Valid.env {w w' : World} {f : File} (valid : Valid w f)
    (moved : Relation.ReflTransGen Client w w') : Valid w' f := by
  rwa [Valid,Client.star_fds moved]

theorem Valid.kernel {w w' : World} {f : File} {request : Syscall} {reply : Reply}
    (valid : Valid w f) (answer : Kernel w request reply w')
    (other : request ≠ .close f.fileHandle) : Valid w' f :=
  valid.imp_right (answer.keeps_open other)

/-- `request` acts on no descriptor but `f`'s own, and only while `f` holds one. -/
def Targets (f : File) (request : Syscall) : Prop :=
  ∀ fd, request.descriptor = some fd → fd = f.fileHandle ∧ fd ≠ -1

theorem guarded_targets {α : Type} {value : α} {request : Syscall} {g : Reply → α} {f : File}
    (aim : request.descriptor = some f.fileHandle) :
    (if f.fileHandle = -1 then pure value else do
      let reply ← sys request
      pure (g reply)).Calls (Targets f) := by
  split_ifs with unheld
  · exact .pure _
  · refine .bind (.sys fun fd aimed => ?_) fun _ => .pure _
    cases aim.symm.trans aimed
    exact ⟨rfl,unheld⟩

theorem existAt_targets (f : File) (filePath : Path) : (existAt filePath).Calls (Targets f) :=
  .bind (.sys fun _ => nofun) fun _ => .pure _

variable {Tm : Type} (localtime : Int → Option Tm)

theorem run_targets (f : File) (op : Op Tm) : (op.run localtime f).Calls (Targets f) := by
  have closing : f.close.Calls (Targets f) := guarded_targets rfl
  cases op <;> simp only [Op.run]
  case «open» fileMode =>
    refine .bind (.bind ?_ fun ⟨closed,f₁⟩ => ?_) fun _ => .pure _
    · split_ifs
      exacts [closing,.pure _]
    · dsimp only
      split_ifs
      · refine .bind (.sys fun _ aimed => ?_) fun _ => .pure _
        obtain ⟨flags,mode,same⟩ := f₁.openRequest_open fileMode
        rw [same] at aimed
        cases aimed
      · exact .pure _
  case close => exact .bind closing fun _ => .pure _
  case test => exact .pure _
  case seek => exact .bind (guarded_targets rfl) fun _ => .pure _
  case tell => exact .bind (guarded_targets rfl) fun _ => .pure _
  case read => exact .bind (guarded_targets rfl) fun _ => .pure _
  case write => exact .bind (guarded_targets rfl) fun _ => .pure _
  case exist =>
    refine .bind ?_ fun _ => .pure _
    unfold exist
    split_ifs with holding
    exacts [.bind (.sys fun _ aimed => ⟨(Option.some.inj aimed).symm,
      (Option.some.inj aimed) ▸ holding⟩) fun _ => .pure _,existAt_targets f _]
  case remove =>
    exact .bind (.bind closing fun _ => .bind (.sys fun _ => nofun) fun _ => .pure _)
      fun _ => .pure _
  case rename =>
    refine .bind (.bind (existAt_targets f _) fun _ => ?_) fun _ => .pure _
    split_ifs
    exacts [.pure _,.bind closing fun _ => .bind (.sys fun _ => nofun) fun _ => .pure _]
  case time =>
    refine .bind ?_ fun _ => .pure _
    unfold time
    split_ifs with holding
    exacts [.bind (.sys fun _ aimed => ⟨(Option.some.inj aimed).symm,
      (Option.some.inj aimed) ▸ holding⟩) fun _ => .pure _,.bind (.sys fun _ => nofun) fun _ => .pure _]
  case access => exact .bind (.bind (.sys fun _ => nofun) fun _ => .pure _) fun _ => .pure _
  case size =>
    refine .bind ?_ fun _ => .pure _
    unfold size
    split_ifs with unheld
    · exact .bind (.sys fun _ => nofun) fun _ => .pure _
    · simp only [tell,seek,if_neg unheld]
      have aimed : ∀ request : Syscall, request.descriptor = some f.fileHandle → Targets f request :=
        fun _ aim _ aimed => by cases aim.symm.trans aimed; exact ⟨rfl,unheld⟩
      exact .bind (.bind (.sys (aimed _ rfl)) fun _ => .pure _) fun _ =>
        .bind (.bind (.sys (aimed _ rfl)) fun _ => .pure _) fun _ =>
        .bind (.bind (.sys (aimed _ rfl)) fun _ => .pure _) fun _ => .pure _

/-- Every call on a descriptor in `events` is on one in `held`, as `acquire` counts it from
there. -/
def UsesHeld : List Int → List Event → Prop
  | _, [] => True
  | held, event :: events =>
    (∀ fd, event.request.descriptor = some fd → fd ∈ held) ∧ UsesHeld (acquire held event) events

/-- Every call on a descriptor in `events` is made while that descriptor is open. -/
def Live (events : List Event) : Prop :=
  ∀ event ∈ events, ∀ fd, event.request.descriptor = some fd → event.before.fds fd ≠ none

theorem usesHeld_append {held : List Int} {first second : List Event} :
    UsesHeld held (first ++ second) ↔
      UsesHeld held first ∧ UsesHeld (first.foldl acquire held) second := by
  induction first generalizing held with
  | nil => simp [UsesHeld]
  | cons event first ih =>
    rw [List.cons_append]
    simp only [UsesHeld,ih,List.foldl_cons,and_assoc]

theorem live_append {first second : List Event} : Live (first ++ second) ↔ Live first ∧ Live second := by
  simp only [Live,List.mem_append,or_imp,forall_and]

theorem live_quiet {before : World} {request : Syscall} {reply : Reply}
    (quiet : request.descriptor = none) : Live [⟨before,request,reply⟩] := fun _ mem _ aimed => by
  rw [List.mem_singleton.mp mem,quiet] at aimed
  cases aimed

theorem usesHeld_quiet {held : List Int} {before : World} {request : Syscall} {reply : Reply}
    (quiet : request.descriptor = none) : UsesHeld held [⟨before,request,reply⟩] :=
  ⟨fun _ aimed => (by rw [quiet] at aimed; cases aimed),trivial⟩

theorem live_nil : Live [] := fun _ absent => absurd absent (List.not_mem_nil _)

theorem usesHeld_queries {held : List Int} {events : List Event}
    (each : ∀ event ∈ events, event.request.Query ∧
      ∀ fd, event.request.descriptor = some fd → fd ∈ held) :
    UsesHeld held events := by
  induction events with
  | nil => trivial
  | cons event events ih =>
    obtain ⟨query,used⟩ := each event (List.mem_cons_self _ _)
    rw [UsesHeld,acquire_query query]
    exact ⟨used,ih fun e mem => each e (List.mem_cons_of_mem _ mem)⟩

theorem Live.closes {α : Type} {env : World → World → Prop} {p : Prog α} {w w' : World}
    {events : List Event} {value : α} (ran : Exec Step env p w events value w') (live : Live events) :
    ClosesSucceed events := by
  induction ran with
  | pure => exact fun _ absent => absurd absent (List.not_mem_nil _)
  | call _ answer _ ih =>
    intro event mem fd closing
    rcases List.mem_cons.mp mem with rfl | mem
    · cases closing
      cases answer with
      | closeOpen => rfl
      | closeBadf closed => exact absurd closed (live _ (List.mem_cons_self _ _) fd rfl)
    · exact ih (fun e mem' => live e (List.mem_cons_of_mem _ mem')) event mem fd closing

section Interleaved

variable {f f₁ : File} {w w' : World} {events : List Event}

theorem close_usesHeld {closed : Bool}
    (ran : Exec Kernel (Relation.ReflTransGen Client) f.close w events (closed,f₁) w') :
    UsesHeld f.held events ∧ (Valid w f → Live events ∧ (ClosesSucceed events → Valid w' f₁)) := by
  rcases close_exec ran with ⟨-,equal,rfl,rfl⟩ | ⟨holding,reply,called,equal⟩
  · cases equal
    exact ⟨trivial,fun valid => ⟨live_nil,fun _ => valid⟩⟩
  obtain ⟨before,moved,answer,rfl⟩ := Exec.sys_iff.mp called
  refine ⟨⟨fun fd aimed => ?_,trivial⟩,fun valid => ⟨fun event mem fd aimed => ?_,fun closes => ?_⟩⟩
  · cases Option.some.inj aimed
    simp [held,holding]
  · rw [List.mem_singleton.mp mem] at aimed ⊢
    cases Option.some.inj aimed
    exact (valid.env moved).resolve_left holding
  · have released := closes _ (List.mem_singleton_self _) _ rfl
    rcases answer.close_cases with ⟨-,rfl⟩ | ⟨failed,-⟩
    · rw [if_pos released] at equal
      cases equal
      exact .inl rfl
    · exact absurd released failed

theorem open_usesHeld {fileMode : FileMode} {opened : Bool}
    (ran : Exec Kernel (Relation.ReflTransGen Client) (f.open fileMode) w events (opened,f₁) w') :
    UsesHeld f.held events ∧ (Valid w f → Live events ∧ (ClosesSucceed events → Valid w' f₁)) := by
  obtain ⟨first,closed,f₂,mid,closing,rest⟩ := open_exec ran
  have closed_uses : UsesHeld f.held first ∧
      (Valid w f → Live first ∧ (ClosesSucceed first → Valid mid f₂)) ∧
      first.foldl acquire f.held = f₂.held := by
    split_ifs at closing
    · exact ⟨(close_usesHeld closing).1,(close_usesHeld closing).2,close_held closing⟩
    · obtain ⟨rfl,equal,rfl⟩ := Exec.pure_iff.mp closing
      cases equal
      exact ⟨trivial,fun valid => ⟨live_nil,fun _ => valid⟩,rfl⟩
  rcases rest with ⟨-,equal,rfl,rfl⟩ | ⟨-,second,reply,called,rfl,equal⟩
  · cases equal
    exact ⟨closed_uses.1,closed_uses.2.1⟩
  obtain ⟨before,moved,answer,rfl⟩ := Exec.sys_iff.mp called
  obtain ⟨flags,mode,same⟩ := f₂.openRequest_open fileMode
  cases equal
  have quiet : (f₂.openRequest fileMode).descriptor = none := by rw [same]; rfl
  refine ⟨usesHeld_append.mpr ⟨closed_uses.1,usesHeld_quiet quiet⟩,
    fun valid => ⟨live_append.mpr ⟨(closed_uses.2.1 valid).1,live_quiet quiet⟩,fun _ => ?_⟩⟩
  rw [same] at answer
  rcases answer.open_cases with ⟨failed,-⟩ | ⟨fd,ino,returned,-,linked | created⟩
  · exact .inl failed
  · exact .inr (by simp [returned,linked.2])
  · exact .inr (by simp [returned,created.2.2.2])

theorem remove_usesHeld {removed : Bool}
    (ran : Exec Kernel (Relation.ReflTransGen Client) f.remove w events (removed,f₁) w') :
    UsesHeld f.held events ∧ (Valid w f → Live events ∧ (ClosesSucceed events → Valid w' f₁)) := by
  obtain ⟨first,closed,f₂,mid,second,reply,closing,called,rfl,equal⟩ := remove_exec ran
  obtain ⟨uses,live⟩ := close_usesHeld closing
  obtain ⟨before,moved,answer,rfl⟩ := Exec.sys_iff.mp called
  cases equal
  refine ⟨usesHeld_append.mpr ⟨uses,usesHeld_quiet rfl⟩,fun valid => ?_⟩
  obtain ⟨alive,valid₂⟩ := live valid
  exact ⟨live_append.mpr ⟨alive,live_quiet rfl⟩,fun closes =>
    ((valid₂ (closesSucceed_append.mp closes).1).env moved).kernel answer nofun⟩

theorem rename_usesHeld {newFilePath : Path} {renamed : Bool}
    (ran : Exec Kernel (Relation.ReflTransGen Client) (f.rename newFilePath) w events
      (renamed,f₁) w') :
    UsesHeld f.held events ∧ (Valid w f → Live events ∧ (ClosesSucceed events → Valid w' f₁)) := by
  obtain ⟨first,taken,mid,probing,rest⟩ := rename_exec ran
  obtain ⟨reply,probed,-⟩ := existAt_exec probing
  obtain ⟨before,moved,answer,rfl⟩ := Exec.sys_iff.mp probed
  have probed_valid : Valid w f → Valid mid f := fun valid => (valid.env moved).kernel answer nofun
  have probe_uses : UsesHeld f.held [⟨before,.stat newFilePath.name,reply⟩] := usesHeld_quiet rfl
  rcases rest with ⟨-,equal,rfl,rfl⟩ |
    ⟨-,second,closed,f₂,mid₁,third,reply',closing,called,rfl,equal⟩
  · cases equal
    exact ⟨probe_uses,fun valid => ⟨live_quiet rfl,fun _ => probed_valid valid⟩⟩
  obtain ⟨uses,live⟩ := close_usesHeld closing
  obtain ⟨before',moved',answer',rfl⟩ := Exec.sys_iff.mp called
  refine ⟨usesHeld_append.mpr ⟨usesHeld_append.mpr ⟨probe_uses,uses⟩,usesHeld_quiet rfl⟩,
    fun valid => ?_⟩
  obtain ⟨alive,closed_valid⟩ := live (probed_valid valid)
  refine ⟨live_append.mpr ⟨live_append.mpr ⟨live_quiet rfl,alive⟩,live_quiet rfl⟩,fun closes => ?_⟩
  have renamed_valid : Valid w' f₂ :=
    ((closed_valid (closesSucceed_append.mp (closesSucceed_append.mp closes).1).2).env moved').kernel
      answer' nofun
  split_ifs at equal <;> cases equal <;> exact renamed_valid

theorem keeps_usesHeld {op : Op Tm} (keeps : op.Keeps) {outcome : Outcome Tm}
    (ran : Exec Kernel (Relation.ReflTransGen Client) (op.run localtime f) w events
      (outcome,f₁) w') :
    UsesHeld f.held events ∧ (Valid w f → Live events ∧ (ClosesSucceed events → Valid w' f₁)) := by
  have query := Exec.calls ran (run_calls localtime keeps)
  have aimed := Exec.calls ran (run_targets localtime f op)
  rw [run_keeps localtime keeps ran]
  refine ⟨usesHeld_queries fun event mem => ⟨query event mem,fun fd aim => ?_⟩,fun valid => ?_⟩
  · obtain ⟨rfl,holding⟩ := aimed event mem fd aim
    simp [held,holding]
  obtain ⟨before,after⟩ := Exec.along (Valid · f) (fun event => event.request.Query)
    (fun _ _ moved valid => valid.env moved)
    (fun _ request _ _ answer query valid => valid.kernel answer fun same => by
      rw [same] at query; exact query) ran query valid
  refine ⟨fun event mem fd aim => ?_,fun _ => after⟩
  obtain ⟨rfl,holding⟩ := aimed event mem fd aim
  exact (before event mem).resolve_left holding

theorem run_usesHeld {op : Op Tm} {outcome : Outcome Tm}
    (ran : Exec Kernel (Relation.ReflTransGen Client) (op.run localtime f) w events
      (outcome,f₁) w') :
    UsesHeld f.held events ∧ (Valid w f → Live events ∧ (ClosesSucceed events → Valid w' f₁)) := by
  by_cases keeps : op.Keeps
  · exact keeps_usesHeld localtime keeps ran
  rcases run_changes localtime keeps ran with
    ⟨_,_,rfl,rfl,called⟩ | ⟨_,rfl,rfl,called⟩ | ⟨_,rfl,rfl,called⟩ | ⟨_,_,rfl,rfl,called⟩
  exacts [open_usesHeld called,close_usesHeld called,remove_usesHeld called,rename_usesHeld called]

theorem session_usesHeld {steps : List (Op Tm × List Event)} {f' : File}
    (run : Session localtime Kernel (Relation.ReflTransGen Client) f w steps f' w') :
    UsesHeld f.held (steps.flatMap Prod.snd) ∧ (Valid w f → ClosesSucceed (steps.flatMap Prod.snd) →
      Live (steps.flatMap Prod.snd) ∧ Valid w' f') := by
  induction run with
  | nil => exact ⟨trivial,fun valid _ => ⟨live_nil,valid⟩⟩
  | step ran _ ih =>
    obtain ⟨uses,live⟩ := run_usesHeld localtime ran
    rw [List.flatMap_cons,usesHeld_append,run_held localtime ran,closesSucceed_append,live_append]
    refine ⟨⟨uses,ih.1⟩,fun valid closes => ?_⟩
    obtain ⟨alive,valid₁⟩ := live valid
    obtain ⟨rest,valid'⟩ := ih.2 (valid₁ closes.1) closes.2
    exact ⟨⟨alive,rest⟩,valid'⟩

theorem Session.valid {filePath : Path} {steps : List (Op Tm × List Event)} {f' : File}
    (run : Session localtime Kernel (Relation.ReflTransGen Client) (ofPath filePath) w steps f' w')
    (closes : ClosesSucceed (steps.flatMap Prod.snd)) : Valid w' f' :=
  ((session_usesHeld localtime run).2 (.inl rfl) closes).2

end Interleaved

/-- Descriptor liveness: in every run of member functions from a new `File` whose `close(2)`
calls all succeed, whatever else the kernel answers and whatever other processes do between
calls, every call on a descriptor is made while it is open, and after the run the
descriptor the `File` holds, if any, is open. -/
theorem calls_on_open (filePath : Path) (w : World) (steps : List (Op Tm × List Event))
    (f : File) (w' : World)
    (run : Session localtime Kernel (Relation.ReflTransGen Client) (ofPath filePath) w steps
      f w') (closes : ClosesSucceed (steps.flatMap Prod.snd)) :
    (∀ event ∈ steps.flatMap Prod.snd, ∀ fd, event.request.descriptor = some fd →
      event.before.fds fd ≠ none) ∧
    (f.test = true → w'.fds f.fileHandle ≠ none) := by
  obtain ⟨live,valid⟩ := (session_usesHeld localtime run).2 (.inl rfl) closes
  exact ⟨live,fun holding => valid.resolve_left (by simpa [test] using holding)⟩

theorem open_read_interleaved :
    Exec Kernel (Relation.ReflTransGen Client) (Op.run localtime (ofPath ⟨"f"⟩) (.open .ckOpenRead))
      removeStart [⟨removeStart,.open "f" ⟨.oRdonly,false⟩ 0,⟨0,[],{}⟩⟩] (.bool true,⟨0,⟨"f"⟩⟩)
      (removeStart.setFd 0 (some ⟨0,0,.oRdonly⟩)) :=
  .call .refl (.of_step (.openLinked rfl (by decide) (.zero rfl))) (.pure _ _)

theorem opened_closes : ClosesSucceed [⟨removeStart,.open "f" ⟨.oRdonly,false⟩ 0,⟨0,[],{}⟩⟩] :=
  fun _ mem _ closing => by rw [List.mem_singleton.mp mem] at closing; cases closing

theorem calls_on_open_after_open :
    ∃ steps f w', Session some Kernel (Relation.ReflTransGen Client) (ofPath ⟨"f"⟩) removeStart
      steps f w' ∧ ClosesSucceed (steps.flatMap Prod.snd) ∧ f.test = true ∧
      (∀ event ∈ steps.flatMap Prod.snd, ∀ fd, event.request.descriptor = some fd →
        event.before.fds fd ≠ none) ∧
      (f.test = true → w'.fds f.fileHandle ≠ none) :=
  ⟨_,_,_,.step (open_read_interleaved some) (.nil _ _),by simpa using opened_closes,by decide,
    calls_on_open some _ _ _ _ _ (.step (open_read_interleaved some) (.nil _ _))
      (by simpa using opened_closes)⟩

theorem mem_foldl_acquire {held : List Int} {events : List Event} {fd : Int}
    (mem : fd ∈ events.foldl acquire held) : fd ∈ held ∨
      ∃ event ∈ events, (∃ pathname flags mode, event.request = .open pathname flags mode) ∧
        event.reply.ret = fd := by
  induction events generalizing held with
  | nil => exact .inl mem
  | cons event events ih =>
    rcases ih mem with mem | ⟨e,member,opened⟩
    · rcases event with ⟨before,request,reply⟩
      cases request <;> simp only [acquire] at mem
      case «open» =>
        split_ifs at mem
        · exact .inl mem
        rcases List.mem_append.mp mem with mem | same
        · exact .inl mem
        · exact .inr ⟨_,List.mem_cons_self _ _,⟨_,_,_,rfl⟩,(List.mem_singleton.mp same).symm⟩
      case close =>
        split_ifs at mem
        exacts [.inl (List.mem_of_mem_erase mem),.inl mem]
      all_goals exact .inl mem
    · exact .inr ⟨e,List.mem_cons_of_mem _ member,opened⟩

theorem Session.along {kernel : World → Syscall → Reply → World → Prop}
    {env : World → World → Prop} (keep : World → Prop) (good : Event → Prop)
    (interleaved : ∀ w w', env w w' → keep w → keep w')
    (step : ∀ w request reply w', kernel w request reply w' → good ⟨w,request,reply⟩ →
      keep w → keep w')
    {f f' : File} {w w' : World} {steps : List (Op Tm × List Event)}
    (run : Session localtime kernel env f w steps f' w')
    (all : ∀ event ∈ steps.flatMap Prod.snd, good event) (start : keep w) : keep w' := by
  induction run with
  | nil => exact start
  | step ran _ ih =>
    simp only [List.flatMap_cons,List.mem_append] at all
    exact ih (fun e mem => all e (.inr mem))
      (Exec.along keep good interleaved step ran (fun e mem => all e (.inl mem)) start).2

/-- Ownership and frame of a run: from a new `File`, whatever the kernel answers and whatever
other processes do, every call on a descriptor is on one the run's own `open(2)` calls
obtained and no successful `close(2)` has released since, and an entry of the descriptor
table that changed was returned by one of the run's `open(2)` calls. -/
theorem fds_only_opened (filePath : Path) (w : World) (steps : List (Op Tm × List Event))
    (f : File) (w' : World)
    (run : Session localtime Kernel (Relation.ReflTransGen Client) (ofPath filePath) w steps
      f w') :
    (∀ pre event post, steps.flatMap Prod.snd = pre ++ event :: post →
      ∀ fd, event.request.descriptor = some fd → fd ∈ owned pre) ∧
    ∀ fd, w'.fds fd = w.fds fd ∨ ∃ event ∈ steps.flatMap Prod.snd,
      (∃ pathname flags mode, event.request = .open pathname flags mode) ∧ event.reply.ret = fd := by
  have uses := (session_usesHeld localtime run).1
  have owns : ∀ pre event post, steps.flatMap Prod.snd = pre ++ event :: post →
      ∀ fd, event.request.descriptor = some fd → fd ∈ owned pre := fun pre event post split fd aimed => by
    rw [split,usesHeld_append] at uses
    exact uses.2.1 fd aimed
  refine ⟨owns,fun fd => or_iff_not_imp_right.mpr fun unopened => ?_⟩
  refine Session.along localtime (fun w₁ => w₁.fds fd = w.fds fd)
    (fun event => event.request.descriptor ≠ some fd ∧
      ∀ pathname flags mode, event.request = .open pathname flags mode → event.reply.ret ≠ fd)
    (fun _ _ moved same => (congrFun (Client.star_fds moved) fd).trans same)
    (fun _ _ _ _ answer untouched same => (answer.fds_frame untouched.1 untouched.2).trans same)
    run (fun event mem => ⟨fun aimed => ?_,fun pathname flags mode same returned =>
      unopened ⟨event,mem,⟨pathname,flags,mode,same⟩,returned⟩⟩) rfl
  obtain ⟨pre,post,split⟩ := List.append_of_mem mem
  rcases mem_foldl_acquire (owns pre event post split fd aimed) with nothing | ⟨e,member,opened⟩
  · cases nothing
  · exact unopened ⟨e,split ▸ List.mem_append_left _ member,opened⟩

theorem fds_only_opened_after_open :
    ∃ steps f w', Session some Kernel (Relation.ReflTransGen Client) (ofPath ⟨"f"⟩) removeStart
      steps f w' ∧ w'.fds 0 ≠ removeStart.fds 0 ∧
      (∀ pre event post, steps.flatMap Prod.snd = pre ++ event :: post →
        ∀ fd, event.request.descriptor = some fd → fd ∈ owned pre) ∧
      ∀ fd, w'.fds fd = removeStart.fds fd ∨ ∃ event ∈ steps.flatMap Prod.snd,
        (∃ pathname flags mode, event.request = .open pathname flags mode) ∧ event.reply.ret = fd :=
  ⟨_,_,_,.step (open_read_interleaved some) (.nil _ _),by simp [removeStart],
    fds_only_opened some _ _ _ _ _ (.step (open_read_interleaved some) (.nil _ _))⟩

/-- Release: after any run of member functions from a new `File` whose `close(2)` calls all
succeeded, whatever else the kernel answered and whatever other processes did, `Close` (and
so the destructor) answered as POSIX specifies has a run, and every run returns what `Test`
says, leaves no descriptor in `this`, nothing held, and the descriptor it held closed. -/
theorem close_releases (filePath : Path) (w : World) (steps : List (Op Tm × List Event))
    (f : File) (w' : World)
    (run : Session localtime Kernel (Relation.ReflTransGen Client) (ofPath filePath) w steps
      f w') (closes : ClosesSucceed (steps.flatMap Prod.snd)) :
    (∃ events f₁ w'', Exec Step (Relation.ReflTransGen Client) f.close w' events (f.test,f₁) w'') ∧
    ∀ events closed f₁ w'', Exec Step (Relation.ReflTransGen Client) f.close w' events
      (closed,f₁) w'' → closed = f.test ∧ f₁.fileHandle = -1 ∧
        owned (steps.flatMap Prod.snd ++ events) = [] ∧
        (f.test = true → w''.fds f.fileHandle = none) := by
  have valid := Session.valid localtime run closes
  have counted : (steps.flatMap Prod.snd).foldl acquire [] = f.held := session_held localtime run
  simp only [owned,List.foldl_append,counted]
  have every : ∀ events closed f₁ w'', Exec Step (Relation.ReflTransGen Client) f.close w' events
      (closed,f₁) w'' → closed = f.test ∧ f₁.fileHandle = -1 ∧ events.foldl acquire f.held = [] ∧
        (f.test = true → w''.fds f.fileHandle = none) := by
    intro events closed f₁ w'' ran
    rcases close_exec ran with ⟨unheld,equal,rfl,-⟩ | ⟨holding,reply,called,equal⟩
    · cases equal
      simp [held,test,unheld]
    obtain ⟨before,moved,answer,rfl⟩ := Exec.sys_iff.mp called
    have still : before.fds f.fileHandle ≠ none := by
      rw [Client.star_fds moved]
      exact valid.resolve_left holding
    cases answer with
    | closeOpen =>
      cases equal
      simp [held,test,holding,acquire]
    | closeBadf closed => exact absurd closed still
  have total : f.close.Calls (Total Step) := guarded_calls (Step.total fun _ _ _ => nofun)
  obtain ⟨events,⟨closed,f₁⟩,w'',ran⟩ := Exec.exists_run total w'
  have ran : Exec Step (Relation.ReflTransGen Client) f.close w' events (closed,f₁) w'' :=
    ran.mono (fun _ _ _ _ => id) fun _ _ same => same ▸ .refl
  exact ⟨⟨events,f₁,w'',(every _ _ _ _ ran).1 ▸ ran⟩,every⟩

theorem close_releases_after_open :
    ∃ steps f w', Session some Kernel (Relation.ReflTransGen Client) (ofPath ⟨"f"⟩) removeStart
      steps f w' ∧ ClosesSucceed (steps.flatMap Prod.snd) ∧ f.test = true ∧
      (∃ events f₁ w'', Exec Step (Relation.ReflTransGen Client) f.close w' events (f.test,f₁) w'') ∧
      ∀ events closed f₁ w'', Exec Step (Relation.ReflTransGen Client) f.close w' events
        (closed,f₁) w'' → closed = f.test ∧ f₁.fileHandle = -1 ∧
          owned (steps.flatMap Prod.snd ++ events) = [] ∧
          (f.test = true → w''.fds f.fileHandle = none) :=
  ⟨_,_,_,.step (open_read_interleaved some) (.nil _ _),by simpa using opened_closes,by decide,
    close_releases some _ _ _ _ _ (.step (open_read_interleaved some) (.nil _ _))
      (by simpa using opened_closes)⟩

end Ckcore.File
