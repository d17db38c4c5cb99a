import Ckcore.File.Exec

/-! Descriptor ownership. Counting what `File` obtained from `open(2)` and gave back by a
successful `close(2)`, it holds exactly its `fileHandle`, or nothing when that is `-1`, after
every run of its member functions, whatever the kernel answers to each call and whatever
other processes do in between. -/
namespace Ckcore.File
open Posix

/-- The descriptors held after `event`: a successful `open(2)` obtains its result, a
successful `close(2)` releases its argument. -/
def acquire (held : List Int) (event : Event) : List Int :=
  match event.request with
  | .open .. => if event.reply.ret = -1 then held else held ++ [event.reply.ret]
  | .close fd => if event.reply.ret = 0 then held.erase fd else held
  | _ => held

/-- The descriptors obtained and not yet released along `events`. -/
def owned (events : List Event) : List Int := events.foldl acquire []

/-- What `f` records as held. -/
def held (f : File) : List Int := if f.fileHandle = -1 then [] else [f.fileHandle]

theorem acquire_query {event : Event} (query : event.request.Query) (held : List Int) :
    acquire held event = held := by
  rcases event with ⟨before,request,reply⟩
  cases request <;> first | rfl | exact query.elim

theorem foldl_query {events : List Event} (query : ∀ event ∈ events, event.request.Query)
    (held : List Int) : events.foldl acquire held = held := by
  induction events generalizing held with
  | nil => rfl
  | cons event events ih =>
    simp only [List.foldl_cons,acquire_query (query event (List.mem_cons_self _ _)),
      ih fun e member => query e (List.mem_cons_of_mem _ member)]

variable {Tm : Type} (localtime : Int → Option Tm)
  {kernel : World → Syscall → Reply → World → Prop} {env : World → World → Prop}
  {f f₁ : File} {w w' : World} {events : List Event}

theorem close_held {closed : Bool} (ran : Exec kernel env f.close w events (closed,f₁) w') :
    events.foldl acquire f.held = f₁.held := by
  rcases close_exec ran with ⟨-,equal,rfl,-⟩ | ⟨holding,reply,called,equal⟩
  · cases equal
    rfl
  · obtain ⟨before,-,-,rfl⟩ := Exec.sys_iff.mp called
    split_ifs at equal with released <;> cases equal <;> simp [acquire,held,holding,released]

theorem open_held {fileMode : FileMode} {opened : Bool}
    (ran : Exec kernel env (f.open fileMode) w events (opened,f₁) w') :
    events.foldl acquire f.held = f₁.held := by
  obtain ⟨first,closed,f₂,mid,closing,rest⟩ := open_exec ran
  have closed_held : first.foldl acquire f.held = f₂.held ∧ (closed = true → f₂.held = []) := by
    split_ifs at closing with holding
    · refine ⟨close_held closing,fun released => ?_⟩
      simp [(close_result closing).1 released,held]
    · obtain ⟨rfl,equal,-⟩ := Exec.pure_iff.mp closing
      cases equal
      simp [held,not_not.mp holding]
  rcases rest with ⟨rfl,equal,rfl,-⟩ | ⟨rfl,second,reply,called,rfl,equal⟩
  · cases equal
    exact closed_held.1
  · obtain ⟨before,-,-,rfl⟩ := Exec.sys_iff.mp called
    cases equal
    rw [List.foldl_append,closed_held.1,closed_held.2 rfl]
    cases fileMode <;> by_cases failed : reply.ret = -1 <;> simp [acquire,held,openRequest,failed]

theorem remove_held {removed : Bool} (ran : Exec kernel env f.remove w events (removed,f₁) w') :
    events.foldl acquire f.held = f₁.held := by
  obtain ⟨first,closed,f₂,mid,second,reply,closing,called,rfl,equal⟩ := remove_exec ran
  obtain ⟨before,-,-,rfl⟩ := Exec.sys_iff.mp called
  cases equal
  simp [close_held closing,acquire]

theorem rename_held {newFilePath : Path} {renamed : Bool}
    (ran : Exec kernel env (f.rename newFilePath) w events (renamed,f₁) w') :
    events.foldl acquire f.held = f₁.held := by
  obtain ⟨first,taken,mid,probing,rest⟩ := rename_exec ran
  obtain ⟨reply,probed,-⟩ := existAt_exec probing
  obtain ⟨before,-,-,rfl⟩ := Exec.sys_iff.mp probed
  rcases rest with ⟨-,equal,rfl,-⟩ | ⟨-,second,closed,f₂,mid₁,third,moved,closing,called,rfl,equal⟩
  · cases equal
    simp [acquire]
  · obtain ⟨before',-,-,rfl⟩ := Exec.sys_iff.mp called
    have kept : f₁.held = f₂.held := by split_ifs at equal <;> cases equal <;> rfl
    simp [kept,close_held closing,acquire]

theorem run_held {op : Op Tm} {outcome : Outcome Tm}
    (ran : Exec kernel env (op.run localtime f) w events (outcome,f₁) w') :
    events.foldl acquire f.held = f₁.held := by
  by_cases keeps : op.Keeps
  · rw [run_keeps localtime keeps ran]
    exact foldl_query (Exec.calls ran (run_calls localtime keeps)) _
  rcases run_changes localtime keeps ran with
    ⟨_,_,rfl,rfl,called⟩ | ⟨_,rfl,rfl,called⟩ | ⟨_,rfl,rfl,called⟩ | ⟨_,_,rfl,rfl,called⟩
  exacts [open_held called,close_held called,remove_held called,rename_held called]

theorem session_held {steps : List (Op Tm × List Event)} {f' : File}
    (run : Session localtime kernel env f w steps f' w') :
    (steps.flatMap Prod.snd).foldl acquire f.held = f'.held := by
  induction run with
  | nil => rfl
  | step ran _ ih => simp [List.foldl_append,run_held localtime ran,ih]

theorem open_closes_first {fileMode : FileMode} {opened : Bool}
    (ran : Exec kernel env (f.open fileMode) w events (opened,f₁) w')
    (holding : f.fileHandle ≠ -1) : ∃ before reply rest,
      events = ⟨before,.close f.fileHandle,reply⟩ :: rest ∧
        (reply.ret = 0 ∨ opened = false ∧ f₁ = f ∧ rest = []) := by
  obtain ⟨first,closed,f₂,mid,closing,rest⟩ := open_exec ran
  rw [if_pos holding] at closing
  rcases close_exec closing with ⟨unheld,-⟩ | ⟨-,reply,called,equal⟩
  · exact absurd unheld holding
  obtain ⟨before,-,-,rfl⟩ := Exec.sys_iff.mp called
  by_cases released : reply.ret = 0
  · rcases rest with ⟨-,-,rfl,-⟩ | ⟨-,second,-,-,rfl,-⟩
    exacts [⟨before,reply,[],rfl,.inl released⟩,⟨before,reply,second,rfl,.inl released⟩]
  · rw [if_neg released] at equal
    cases equal
    rcases rest with ⟨-,result,rfl,-⟩ | ⟨unclosed,-⟩
    · cases result
      exact ⟨before,reply,[],rfl,.inr ⟨rfl,rfl,rfl⟩⟩
    · cases unclosed

theorem close_path {closed : Bool} (ran : Exec kernel env f.close w events (closed,f₁) w') :
    f₁.filePath = f.filePath := by
  cases closed
  · rw [(close_result ran).2 rfl]
  · rw [(close_result ran).1 rfl]

theorem run_path {op : Op Tm} {outcome : Outcome Tm}
    (ran : Exec kernel env (op.run localtime f) w events (outcome,f₁) w')
    (moved : f₁.filePath ≠ f.filePath) :
    (∃ newFilePath, op = .rename newFilePath) ∧ outcome = .bool true := by
  by_cases keeps : op.Keeps
  · exact absurd (congrArg File.filePath (run_keeps localtime keeps ran)) moved
  rcases run_changes localtime keeps ran with
    ⟨_,_,rfl,rfl,called⟩ | ⟨_,rfl,rfl,called⟩ | ⟨_,rfl,rfl,called⟩ | ⟨_,_,rfl,rfl,called⟩
  · obtain ⟨first,closed,f₃,mid,closing,rest⟩ := open_exec called
    have kept : f₃.filePath = f.filePath := by
      split_ifs at closing
      · exact close_path closing
      · cases (Exec.pure_iff.mp closing).2.1
        rfl
    rcases rest with ⟨-,equal,-⟩ | ⟨-,second,reply,opening,joined,equal⟩ <;> cases equal <;>
      exact absurd kept moved
  · exact absurd (close_path called) moved
  · obtain ⟨first,closed,f₃,mid,second,reply,closing,unlinking,joined,equal⟩ := remove_exec called
    cases equal
    exact absurd (close_path closing) moved
  · obtain ⟨first,taken,mid,-,rest⟩ := rename_exec called
    rcases rest with ⟨-,equal,-⟩ |
      ⟨-,second,closed,f₃,mid₁,third,reply,closing,moving,joined,equal⟩
    · cases equal
      exact absurd rfl moved
    · split_ifs at equal <;> cases equal
      · exact ⟨⟨_,rfl⟩,rfl⟩
      · exact absurd (close_path closing) moved

theorem destruct_releases (ran : Exec kernel env f.destruct w events () w') :
    events.foldl acquire f.held = [] ∨ ∃ before reply,
      events = [⟨before,.close f.fileHandle,reply⟩] ∧ reply.ret ≠ 0 ∧
        events.foldl acquire f.held = [f.fileHandle] := by
  obtain ⟨first,⟨closed,f₂⟩,mid,second,closing,last,rfl⟩ := Exec.of_bind ran
  obtain ⟨rfl,-,rfl⟩ := Exec.pure_iff.mp last
  rcases close_exec closing with ⟨unheld,-,rfl,-⟩ | ⟨holding,reply,called,-⟩
  · exact .inl (by simp [held,unheld])
  obtain ⟨before,-,-,rfl⟩ := Exec.sys_iff.mp called
  by_cases released : reply.ret = 0
  · exact .inl (by simp [acquire,held,holding,released])
  · exact .inr ⟨before,reply,by simp,released,by simp [acquire,held,holding,released]⟩

/-- Descriptor ownership of a `File` over every run, whatever the kernel answers and
whatever other processes do: what it obtained and kept is its `fileHandle`; `Open` on an
open `File` goes on only after a successful close of the old descriptor; only a successful
`Rename` moves `filePath`; and the destructor leaves nothing held, unless the one call it
makes, the `close(2)` of `fileHandle`, fails, which leaves `fileHandle` held. -/
theorem descriptor_ownership (kernel : World → Syscall → Reply → World → Prop)
    (env : World → World → Prop) :
    (∀ (filePath : Path) (w : World) (steps : List (Op Tm × List Event)) (f : File) (w' : World),
      Session localtime kernel env (ofPath filePath) w steps f w' →
        owned (steps.flatMap Prod.snd) = f.held ∧
        (f.test = true ↔ owned (steps.flatMap Prod.snd) ≠ []) ∧
        ∀ last w'', Exec kernel env f.destruct w' last () w'' →
          owned (steps.flatMap Prod.snd ++ last) = [] ∨ ∃ before reply,
            last = [⟨before,.close f.fileHandle,reply⟩] ∧ reply.ret ≠ 0 ∧
              owned (steps.flatMap Prod.snd ++ last) = [f.fileHandle]) ∧
    (∀ (f f₁ : File) (fileMode : FileMode) (w w' : World) (events : List Event) (opened : Bool),
      Exec kernel env (f.open fileMode) w events (opened,f₁) w' → f.fileHandle ≠ -1 →
        ∃ before reply rest, events = ⟨before,.close f.fileHandle,reply⟩ :: rest ∧
          (reply.ret = 0 ∨ opened = false ∧ f₁ = f ∧ rest = [])) ∧
    (∀ (f f₁ : File) (op : Op Tm) (w w' : World) (events : List Event) (outcome : Outcome Tm),
      Exec kernel env (op.run localtime f) w events (outcome,f₁) w' → f₁.filePath ≠ f.filePath →
        (∃ newFilePath, op = .rename newFilePath) ∧ outcome = .bool true) := by
  refine ⟨fun filePath w steps f w' run => ?_,fun f f₁ fileMode w w' events opened ran holding =>
    open_closes_first ran holding,fun f f₁ op w w' events outcome ran moved =>
    run_path localtime ran moved⟩
  have counted : owned (steps.flatMap Prod.snd) = f.held := session_held localtime run
  refine ⟨counted,?_,fun last w'' ran => ?_⟩
  · rw [counted]
    by_cases unheld : f.fileHandle = -1 <;> simp [held,test,unheld]
  · rw [owned,List.foldl_append,← owned,counted]
    exact destruct_releases ran

end Ckcore.File
