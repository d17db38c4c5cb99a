import Ckcore.Posix.Kernel

/-! Programs that make system calls, and their executions. A program is C++ code of the
back-end with each system call left as a request; `Exec` runs it against a kernel, and
lets `env` (the steps of other processes) move the world before each call. -/
namespace Ckcore.Posix

inductive Prog (α : Type) where
  | pure (value : α)
  | call (request : Syscall) (next : Reply → Prog α)

/-- One system call, returning its reply. -/
def sys (request : Syscall) : Prog Reply := .call request .pure

def Prog.bind {α β : Type} : Prog α → (α → Prog β) → Prog β
  | .pure value, k => k value
  | .call request next, k => .call request (fun reply => (next reply).bind k)

instance : Monad Prog where
  pure := .pure
  bind := Prog.bind

@[simp] theorem Prog.pure_bind {α β : Type} (a : α) (k : α → Prog β) :
    (Pure.pure a >>= k : Prog β) = k a := rfl

@[simp] theorem Prog.bind_assoc {α β γ : Type} (p : Prog α) (k : α → Prog β) (g : β → Prog γ) :
    (p >>= k >>= g : Prog γ) = p >>= fun a => k a >>= g := by
  induction p with
  | pure a => rfl
  | call request next ih =>
    show Prog.call request _ = Prog.call request _
    exact congrArg _ (funext ih)

/-- Every system call `p` can make satisfies `allowed`. -/
inductive Prog.Calls {α : Type} (allowed : Syscall → Prop) : Prog α → Prop
  | pure (value : α) : Prog.Calls allowed (.pure value)
  | call {request next} (permitted : allowed request)
      (rest : ∀ reply, Prog.Calls allowed (next reply)) : Prog.Calls allowed (.call request next)

theorem Prog.Calls.bind {α β : Type} {allowed : Syscall → Prop} {p : Prog α}
    {k : α → Prog β} (first : p.Calls allowed) (second : ∀ a, (k a).Calls allowed) :
    (p >>= k).Calls allowed := by
  induction first with
  | pure value => exact second value
  | call permitted _ ih => exact .call permitted ih

theorem Prog.Calls.sys {allowed : Syscall → Prop} {request : Syscall}
    (permitted : allowed request) : (sys request).Calls allowed :=
  .call permitted fun reply => .pure reply

theorem Prog.Calls.mono {α : Type} {allowed allowed' : Syscall → Prop} {p : Prog α}
    (calls : p.Calls allowed) (weaker : ∀ request, allowed request → allowed' request) :
    p.Calls allowed' := by
  induction calls with
  | pure value => exact .pure value
  | call permitted _ ih => exact .call (weaker _ permitted) ih

/-- A call as the kernel answered it, with the world it was answered in. -/
structure Event where
  before : World
  request : Syscall
  reply : Reply

/-- Every `close(2)` among `events` returned 0. -/
def ClosesSucceed (events : List Event) : Prop :=
  ∀ event ∈ events, ∀ fd, event.request = .close fd → event.reply.ret = 0

theorem closesSucceed_append {first second : List Event} :
    ClosesSucceed (first ++ second) ↔ ClosesSucceed first ∧ ClosesSucceed second := by
  simp only [ClosesSucceed,List.mem_append,or_imp,forall_and]

inductive Exec {α : Type} (kernel : World → Syscall → Reply → World → Prop)
    (env : World → World → Prop) : Prog α → World → List Event → α → World → Prop
  | pure (value : α) (w : World) : Exec kernel env (.pure value) w [] value w
  | call {request next w before reply after events value w'} (interleaved : env w before)
      (answer : kernel before request reply after)
      (rest : Exec kernel env (next reply) after events value w') :
      Exec kernel env (.call request next) w (⟨before,request,reply⟩ :: events) value w'

namespace Exec

variable {α β : Type} {kernel : World → Syscall → Reply → World → Prop}
  {env : World → World → Prop}

@[simp] theorem pure_iff {a value : α} {w w' : World} {events : List Event} :
    Exec kernel env (Pure.pure a) w events value w' ↔ events = [] ∧ value = a ∧ w' = w := by
  constructor
  · rintro ⟨⟩
    exact ⟨rfl,rfl,rfl⟩
  · rintro ⟨rfl,rfl,rfl⟩
    exact .pure _ _

theorem of_bind {p : Prog α} {k : α → Prog β} {w w' : World} {events : List Event} {value : β}
    (ran : Exec kernel env (p >>= k) w events value w') :
    ∃ first a mid second, Exec kernel env p w first a mid ∧
      Exec kernel env (k a) mid second value w' ∧ events = first ++ second := by
  induction p generalizing w events with
  | pure a => exact ⟨[],a,w,events,.pure a w,ran,rfl⟩
  | call request next ih =>
    cases ran with
    | call interleaved answer rest =>
      obtain ⟨first,a,mid,second,ran,continued,rfl⟩ := ih _ rest
      exact ⟨_,a,mid,second,.call interleaved answer ran,continued,rfl⟩

theorem bind {p : Prog α} {k : α → Prog β} {w mid w' : World} {first second : List Event}
    {a : α} {value : β} (ran : Exec kernel env p w first a mid)
    (continued : Exec kernel env (k a) mid second value w') :
    Exec kernel env (p >>= k) w (first ++ second) value w' := by
  induction ran with
  | pure => exact continued
  | call interleaved answer _ ih => exact .call interleaved answer (ih continued)

@[simp] theorem sys_iff {request : Syscall} {w w' : World} {events : List Event}
    {value : Reply} :
    Exec kernel env (sys request) w events value w' ↔ ∃ before, env w before ∧
      kernel before request value w' ∧ events = [⟨before,request,value⟩] := by
  constructor
  · rintro (_ | ⟨interleaved,answer,⟨⟩⟩)
    exact ⟨_,interleaved,answer,rfl⟩
  · rintro ⟨before,interleaved,answer,rfl⟩
    exact .call interleaved answer (.pure _ _)

@[simp] theorem sys_bind_iff {request : Syscall} {k : Reply → Prog α} {w w' : World}
    {events : List Event} {value : α} :
    Exec kernel env (sys request >>= k) w events value w' ↔ ∃ before reply after rest,
      env w before ∧ kernel before request reply after ∧ Exec kernel env (k reply) after rest value w' ∧
        events = ⟨before,request,reply⟩ :: rest := by
  show Exec kernel env (.call request k) w events value w' ↔ _
  constructor
  · rintro (_ | ⟨interleaved,answer,rest⟩)
    exact ⟨_,_,_,_,interleaved,answer,rest,rfl⟩
  · rintro ⟨before,reply,after,rest,interleaved,answer,ran,rfl⟩
    exact .call interleaved answer ran

theorem mono {kernel' : World → Syscall → Reply → World → Prop} {env' : World → World → Prop}
    {p : Prog α} {w w' : World} {events : List Event} {value : α}
    (ran : Exec kernel env p w events value w')
    (answers : ∀ w request reply w', kernel w request reply w' → kernel' w request reply w')
    (moves : ∀ w w', env w w' → env' w w') : Exec kernel' env' p w events value w' := by
  induction ran with
  | pure => exact .pure _ _
  | call moved answer _ ih => exact .call (moves _ _ moved) (answers _ _ _ _ answer) ih

theorem calls {allowed : Syscall → Prop} {p : Prog α} {w w' : World} {events : List Event}
    {value : α} (ran : Exec kernel env p w events value w') (only : p.Calls allowed) :
    ∀ event ∈ events, allowed event.request := by
  induction ran with
  | pure => simp
  | call _ _ _ ih =>
    cases only with
    | call permitted rest =>
      simpa [permitted] using ih (rest _)

theorem unique {p : Prog α} {w w₁ w₂ : World} {events₁ events₂ : List Event} {value₁ value₂ : α}
    (only : p.Calls (Functional kernel))
    (first : Exec kernel Eq p w events₁ value₁ w₁) (second : Exec kernel Eq p w events₂ value₂ w₂) :
    events₁ = events₂ ∧ value₁ = value₂ ∧ w₁ = w₂ := by
  induction first generalizing events₂ with
  | pure => cases second; exact ⟨rfl,rfl,rfl⟩
  | call interleaved answer _ ih =>
    cases interleaved
    cases only with
    | call functional rest =>
      cases second with
      | call interleaved' answer' ran =>
        cases interleaved'
        obtain ⟨rfl,rfl⟩ := functional _ _ _ _ _ answer answer'
        obtain ⟨rfl,rfl,rfl⟩ := ih (rest _) ran
        exact ⟨rfl,rfl,rfl⟩

theorem exists_run {p : Prog α} (total : p.Calls (Total kernel)) (w : World) :
    ∃ events value w', Exec kernel Eq p w events value w' := by
  induction total generalizing w with
  | pure value => exact ⟨[],value,w,.pure value w⟩
  | call answered _ ih =>
    obtain ⟨reply,after,answer⟩ := answered w
    obtain ⟨events,value,w',rest⟩ := ih reply after
    exact ⟨_,value,w',.call rfl answer rest⟩

theorem invariant {allowed : Syscall → Prop} (keep : World → Prop)
    (step : ∀ w request reply w', allowed request → kernel w request reply w' → keep w → keep w')
    {p : Prog α} {w w' : World} {events : List Event} {value : α}
    (ran : Exec kernel Eq p w events value w') (only : p.Calls allowed) (start : keep w) :
    keep w' := by
  induction ran with
  | pure => exact start
  | call interleaved answer _ ih =>
    cases interleaved
    cases only with
    | call permitted rest => exact ih (rest _) (step _ _ _ _ permitted answer start)

theorem along (keep : World → Prop) (good : Event → Prop)
    (interleaved : ∀ w w', env w w' → keep w → keep w')
    (step : ∀ w request reply w', kernel w request reply w' → good ⟨w,request,reply⟩ →
      keep w → keep w')
    {p : Prog α} {w w' : World} {events : List Event} {value : α}
    (ran : Exec kernel env p w events value w') (all : ∀ event ∈ events, good event)
    (start : keep w) : (∀ event ∈ events, keep event.before) ∧ keep w' := by
  induction ran with
  | pure => exact ⟨fun _ absent => absurd absent (List.not_mem_nil _),start⟩
  | call moved answer _ ih =>
    have before := interleaved _ _ moved start
    have rest := ih (fun e mem => all e (List.mem_cons_of_mem _ mem))
      (step _ _ _ _ answer (all _ (List.mem_cons_self _ _)) before)
    refine ⟨fun event mem => ?_,rest.2⟩
    rcases List.mem_cons.mp mem with rfl | mem
    exacts [before,rest.1 event mem]

end Exec

/-- Under POSIX, with no other process acting, `p` has a run from `w`, and every run returns
`value`. -/
def Returns {α : Type} (p : Prog α) (w : World) (value : α) : Prop :=
  (∃ events w', Exec Step Eq p w events value w') ∧
    ∀ events value' w', Exec Step Eq p w events value' w' → value' = value

theorem Returns.of_exec {α : Type} {p : Prog α} {w w' : World} {events : List Event} {value : α}
    (only : p.Calls (Functional Step)) (ran : Exec Step Eq p w events value w') :
    Returns p w value :=
  ⟨⟨events,w',ran⟩,fun _ _ _ other => (Exec.unique only other ran).2.1⟩

end Ckcore.Posix
