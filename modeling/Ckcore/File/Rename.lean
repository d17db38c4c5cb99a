import Ckcore.File.Exec
import Mathlib.Logic.Relation

/-! `Rename` asks `stat(2)` whether something is at the new path and then calls `rename(2)`,
which replaces whatever is there. With no other process acting, POSIX never lets it replace a
file; a process that creates one between the two calls has it replaced. -/
namespace Ckcore.File
open Posix

variable {kernel : World → Syscall → Reply → World → Prop} {w w' : World}
  {events : List Event} {oldFilePath newFilePath : Path}

theorem renameAt_exec {renamed : Bool}
    (ran : Exec kernel Eq (renameAt oldFilePath newFilePath) w events renamed w') :
    ∃ probe mid, kernel w (.stat newFilePath.name) probe mid ∧
      (probe.ret = 0 ∧ renamed = false ∧ w' = mid ∧ events = [⟨w,.stat newFilePath.name,probe⟩] ∨
        probe.ret ≠ 0 ∧ ∃ moved, kernel mid (.rename oldFilePath.name newFilePath.name) moved w' ∧
          renamed = decide (moved.ret = 0) ∧
          events = [⟨w,.stat newFilePath.name,probe⟩,⟨mid,.rename oldFilePath.name newFilePath.name,moved⟩]) := by
  simp only [renameAt,existAt,Prog.bind_assoc,Prog.pure_bind,Exec.sys_bind_iff] at ran
  obtain ⟨_,probe,mid,rest,rfl,probed,ran,rfl⟩ := ran
  refine ⟨probe,mid,probed,?_⟩
  by_cases taken : probe.ret = 0
  · simp only [taken,decide_True,if_true,Exec.pure_iff] at ran
    obtain ⟨rfl,rfl,rfl⟩ := ran
    exact .inl ⟨taken,rfl,rfl,rfl⟩
  · simp only [taken,decide_False,Bool.false_eq_true,if_false,Exec.sys_bind_iff,Exec.pure_iff] at ran
    obtain ⟨_,moved,after,_,rfl,answer,⟨rfl,rfl,rfl⟩,rfl⟩ := ran
    exact .inr ⟨taken,moved,answer,rfl,rfl⟩

theorem renameAt_alone (ran : Exec Step Eq (renameAt oldFilePath newFilePath) w events true w') :
    ∃ event ∈ events, event.request = .rename oldFilePath.name newFilePath.name ∧
      event.before.names newFilePath.name = none := by
  obtain ⟨probe,mid,probed,⟨-,renamed,-⟩ | ⟨taken,moved,-,-,rfl⟩⟩ := renameAt_exec ran
  · cases renamed
  · cases probed with
    | stat => exact absurd rfl taken
    | statNoent absent => exact ⟨_,List.mem_cons_of_mem _ (List.mem_singleton_self _),rfl,absent⟩

theorem renameAt_refused (ran : Exec Kernel Eq (renameAt oldFilePath newFilePath) w events false w') :
    w' = w := by
  obtain ⟨probe,mid,probed,⟨-,-,rfl,-⟩ | ⟨-,moved,answer,refused,-⟩⟩ := renameAt_exec ran
  · exact probed.stat_world
  · rw [answer.failed trivial (fun _ => nofun) (by simpa using refused.symm),probed.stat_world]

/-- With no other process acting, `Rename(old, new)` keeps the promise of its comment: under
POSIX a true return means nothing was at the new path when its `rename(2)` was made, and
whatever the kernel answers a false return changes nothing. -/
theorem renameAt_guarded (oldFilePath newFilePath : Path) (w : World) :
    (∀ events w', Exec Step Eq (renameAt oldFilePath newFilePath) w events true w' →
      ∃ event ∈ events, event.request = .rename oldFilePath.name newFilePath.name ∧
        event.before.names newFilePath.name = none) ∧
    ∀ events w', Exec Kernel Eq (renameAt oldFilePath newFilePath) w events false w' → w' = w :=
  ⟨fun _ _ ran => renameAt_alone ran,fun _ _ ran => renameAt_refused ran⟩

/-- A file at `old` and nothing at `new`. -/
def raceStart : World where
  names name := if name = "old" then some 0 else none
  inodes _ := ⟨[],0o600,0,0,0⟩
  fds _ := none
  clock := 0

/-- Another process creates a file at `new` between the `stat(2)` and the `rename(2)` of
`Rename(old, new)`: the call returns true, there was a file at `new` just before its
`rename(2)`, and that file has lost its only name. -/
theorem renameAt_race_overwrites :
    ∃ events w', Exec Step (Relation.ReflTransGen Client) (renameAt ⟨"old"⟩ ⟨"new"⟩) raceStart
      events true w' ∧ (∃ event ∈ events, event.request = .rename "old" "new" ∧
        event.before.names "new" = some 1) ∧ ∀ name, w'.names name ≠ some 1 := by
  let raced := (raceStart.setInode 1 ⟨[],0o600,0,0,0⟩).link "new" (some 1)
  have fresh : raceStart.Unused 1 := ⟨fun name => by simp only [raceStart]; split_ifs <;> simp,
    fun _ _ none => by cases none⟩
  have created : Relation.ReflTransGen Client raceStart raced := .single (.creat _ rfl fresh)
  have moved : Step raced (.rename "old" "new") ⟨0,[],{}⟩
      (((raced.link "old" none).link "new" (some 0)).touch 0) :=
    .rename rfl (by simp [raced])
  refine ⟨_,_,.call .refl (.statNoent rfl) (.call created moved (.pure _ _)),
    ⟨_,List.mem_cons_of_mem _ (List.mem_singleton_self _),rfl,by simp [raced]⟩,fun name => ?_⟩
  simp only [raced,World.touch_names,World.link_names,World.setInode_names,raceStart,
    Function.update_apply]
  split_ifs <;> simp

end Ckcore.File
